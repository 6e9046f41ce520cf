import BoostProcess.Library.Ledger
import BoostProcess.Library.Transition

/-! basic_process on Windows: objects with a process handle each, and the processes behind the handles.

A process is there as long as a handle to it is, so its number is not used again meanwhile. A handle of CreateProcess
has every right. OpenProcess is asked for two, and GetExitCodeProcess needs a third one. This process is the first one.
-/

set_option autoImplicit false

namespace BoostProcess.V2.Windows.BasicProcess

open Transition

/-- STILL_ACTIVE -/
def stillActive : Nat := 259

def processIsRunning (code : Nat) : Bool := code == stillActive

/-- `static_cast<DWORD>(-1)` -/
def movedPid : Nat := 4294967295

/-- A number that a process can have. -/
abbrev ProcessId := { number : Nat // number ≠ 0 ∧ number ≠ movedPid }

structure Proc where
  pid : ProcessId
  exited : Option Nat := none
  deriving DecidableEq, Repr

/-- An open process handle: its process, and whether it has PROCESS_QUERY_INFORMATION. -/
structure Handle where
  serial : Nat
  query : Bool
  deriving DecidableEq, Repr

/-- `basic_process`, or the `basic_process_handle` that `detach` returned. Its `handle_` is in the ledger of the world. -/
structure Object where
  pid : Nat := 0
  exitStatus : Nat := stillActive
  /-- A handle alone has no destructor that terminates. -/
  owning : Bool := true
  /-- The process that it was made for, which goes with the status of a move. -/
  subject : Option Nat := none
  /-- It was made from a number. -/
  attached : Bool := false
  deriving DecidableEq, Repr

/-- How a handle ends: behind its process, or before. -/
inductive Way where
  | closed
  | dropped
  deriving DecidableEq, Repr

structure World where
  procs : List Proc
  handles : List Handle := []
  objects : Nat → Option Object := fun _ => none
  /-- The handle of each object, of which INVALID_HANDLE_VALUE is none. -/
  owners : Ledger Nat Nat Way := Ledger.empty
  /-- NtSuspendProcess was called for this process. -/
  selfSuspended : Bool := false
  /-- The number of each console event that was sent, behind that of the process that the object has a handle of. -/
  events : List (Option Nat × Nat) := []
  /-- The same for the numbers whose windows got WM_CLOSE. -/
  closes : List (Option Nat × Nat) := []

/-- This process before it makes an object. -/
def start (own : ProcessId) : World := { procs := [⟨own, none⟩] }

namespace World

def set (world : World) (name : Nat) (object : Option Object) : World :=
  { world with objects := Function.update world.objects name object }

def handle (world : World) (name : Nat) : Option Handle := (world.owners.held name).bind fun inst => world.handles[inst]?

/-- A process ends, unless it has. -/
def finish (world : World) (serial code : Nat) : World :=
  { world with procs := world.procs.modify serial fun proc => { proc with exited := some (proc.exited.getD code) } }

/-- The exit code as the kernel keeps it. -/
def code (world : World) (serial : Nat) : Nat := ((world.procs[serial]?).bind Proc.exited).getD stillActive

/-- GetExitCodeProcess -/
def getExitCode (world : World) (handle : Handle) : Option Nat := if handle.query then some (world.code handle.serial) else none

def exited (world : World) (serial : Nat) : Bool := ((world.procs[serial]?).bind Proc.exited).isSome

/-- `running(exit_code, ec)` of the handle: none is an error, and a code goes with false. -/
def handleRunning (world : World) (name : Nat) : Option (Except Nat Unit) :=
  (world.handle name).bind fun handle => (world.getExitCode handle).map fun code =>
    if processIsRunning code then .ok () else .error code

/-- `running(ec)`: whether the process runs, and the object with the status. -/
def running (world : World) (name : Nat) (object : Object) : Bool × Object :=
  if processIsRunning object.exitStatus then
    match world.handleRunning name with
    | none => (false, object)
    | some (.ok _) => (true, object)
    | some (.error code) => (false, { object with exitStatus := code })
  else (false, object)

/-- `get_exit_code_`, the last step of `wait` of the handle. -/
def learn (world : World) (name : Nat) (object : Object) : Object :=
  match (world.handle name).bind world.getExitCode with
  | none => object
  | some code => { object with exitStatus := code }

/-- `wait(ec)`, during which the process ends with the code if it was running. -/
def wait (world : World) (name : Nat) (object : Object) (code : Nat) : World × Object :=
  match world.running name object, world.handle name with
  | (true, object), some handle => (world.finish handle.serial code, (world.finish handle.serial code).learn name object)
  | (_, object), _ => (world, object)

/-- `terminate(ec)`. TerminateProcess fails behind the end of the process. -/
def terminate (world : World) (name : Nat) (object : Object) : World × Object :=
  match world.handle name with
  | none => (world, object)
  | some handle =>
    if world.exited handle.serial then (world, object)
    else (world.finish handle.serial 260, (world.finish handle.serial 260).learn name object)

/-- `terminate_if_running_` -/
def terminateIfRunning (world : World) (name : Nat) : World :=
  match world.handle name with
  | none => world
  | some handle =>
    match world.getExitCode handle with
    | none => world
    | some code => if processIsRunning code then world.finish handle.serial 260 else world

/-- The process of a handle that CreateProcess gave still runs. -/
def Leaves (world : World) (name : Nat) : Prop :=
  ∃ handle, world.handle name = some handle ∧ handle.query = true ∧ world.exited handle.serial = false

instance (world : World) (name : Nat) : Decidable (world.Leaves name) :=
  match found : world.handle name with
  | none => isFalse fun ⟨_, same, _⟩ => nomatch found.symm.trans same
  | some handle => decidable_of_iff (handle.query = true ∧ world.exited handle.serial = false) (by simp [Leaves, found])

/-- The handle of an object is closed. -/
def closeHandle (world : World) (name : Nat) : World :=
  { world with owners := world.owners.finish name (if world.Leaves name then .dropped else .closed) }

/-- A handle goes to another object, and both objects are stored as they are then. -/
def handOver (world : World) (source name : Nat) (moved left : Object) : World :=
  ({ world with owners := world.owners.give source name }.set name (some moved)).set source (some left)

/-- The number of the process that an object has a handle of. -/
def number (world : World) (name : Nat) : Option Nat :=
  (world.handle name).bind fun handle => (world.procs[handle.serial]?).map fun proc => proc.pid.val

/-- `check_pid_`, and GenerateConsoleCtrlEvent for the number. -/
def interrupt (world : World) (name : Nat) (object : Object) : World :=
  if object.pid = 0 then world else { world with events := (world.number name, object.pid) :: world.events }

/-- `check_pid_`, and WM_CLOSE to each window of a process that has the number. -/
def requestExit (world : World) (name : Nat) (object : Object) : World :=
  if object.pid = 0 then world else { world with closes := (world.number name, object.pid) :: world.closes }

/-- NtSuspendProcess takes INVALID_HANDLE_VALUE for this process. It may refuse a handle of OpenProcess, which was not asked
for the right to suspend. With BOOST_PROCESS_V2_DISABLE_UNDOCUMENTED_API there is no such call. -/
def suspend (world : World) (name : Nat) (accepted : Bool) : World :=
  match world.handle name with
  | none => { world with selfSuspended := true }
  | some handle => if handle.serial = 0 ∧ accepted = true then { world with selfSuspended := true } else world

end World

/-- What a move leaves behind. -/
def Object.released (object : Object) : Object := { object with pid := movedPid }

inductive Op where
  | construct (name : Nat)
  | launch (name : Nat) (pid : ProcessId)
  /-- `basic_process(exec, pid)` -/
  | attach (name serial : Nat)
  /-- A process that somebody else launches. -/
  | foreign (pid : ProcessId)
  | exit (serial code : Nat)
  | moveConstruct (name source : Nat)
  | moveAssign (name source : Nat)
  | detach (name target : Nat)
  | running (name : Nat)
  | wait (name code : Nat)
  | terminate (name : Nat)
  | suspend (name : Nat) (accepted : Bool)
  | interrupt (name : Nat)
  | requestExit (name : Nat)
  | destroy (name : Nat)
  deriving DecidableEq, Repr

def step (world : World) : Op → Option World
  | .construct name => if world.objects name = none then some (world.set name (some {})) else none
  | .launch name pid =>
    if world.objects name = none then
      some ({ world with
        procs := world.procs ++ [(⟨pid, none⟩ : Proc)]
        handles := world.handles ++ [(⟨world.procs.length, true⟩ : Handle)]
        owners := world.owners.acquire name world.handles.length }.set name
          (some { pid := pid.val, subject := some world.procs.length }))
    else none
  | .attach name serial =>
    match world.objects name, world.procs[serial]? with
    | none, some proc =>
      some ({ world with
        handles := world.handles ++ [(⟨serial, false⟩ : Handle)]
        owners := world.owners.acquire name world.handles.length }.set name
          (some { pid := proc.pid.val, subject := some serial, attached := true }))
    | _, _ => none
  | .foreign pid => some { world with procs := world.procs ++ [(⟨pid, none⟩ : Proc)] }
  | .exit serial code => if serial < world.procs.length then some (world.finish serial code) else none
  | .moveConstruct name source =>
    match world.objects name, world.objects source with
    | none, some other => some (world.handOver source name other other.released)
    | _, _ => none
  | .moveAssign name source =>
    match world.objects name, world.objects source with
    | some self, some other =>
      if self.owning ≠ other.owning then none
      -- asio leaves a handle that is moved to itself alone, the number is lost
      else if name = source then some (world.set name (some other.released))
      else some ((world.closeHandle name).handOver source name other other.released)
    | _, _ => none
  | .detach name target =>
    match world.objects target, world.objects name with
    | none, some object =>
      if object.owning = true then
        some (world.handOver name target { object with owning := false, exitStatus := stillActive } { object with pid := 0 })
      else none
    | _, _ => none
  | .running name => (world.objects name).map fun object => world.set name (some (world.running name object).2)
  | .wait name code =>
    (world.objects name).map fun object =>
      let (next, after) := world.wait name object code
      next.set name (some after)
  | .terminate name =>
    (world.objects name).map fun object =>
      let (next, after) := world.terminate name object
      next.set name (some after)
  | .suspend name accepted => (world.objects name).map fun _ => world.suspend name accepted
  | .interrupt name => (world.objects name).map fun object => world.interrupt name object
  | .requestExit name => (world.objects name).map fun object => world.requestExit name object
  | .destroy name =>
    (world.objects name).map fun object =>
      ((if object.owning then world.terminateIfRunning name else world).closeHandle name).set name none

variable {world next final : World} {name source : Nat} {object other : Object} {op : Op} {ops : List Op}

/-! ## Processes -/

/-- Processes are not forgotten, and an exit code stays. -/
def Grows (world next : World) : Prop :=
  ∀ (serial : Nat) (proc : Proc), world.procs[serial]? = some proc → ∃ later : Proc, next.procs[serial]? = some later ∧
    later.pid = proc.pid ∧
    ∀ code, proc.exited = some code → later.exited = some code

theorem Grows.refl (world : World) : Grows world world := fun _ proc present => ⟨proc, present, rfl, fun _ => id⟩

theorem grows_finish (world : World) (serial code : Nat) : Grows world (world.finish serial code) := by
  intro other proc present
  unfold World.finish
  dsimp only
  rw [List.getElem?_modify, present]
  refine ⟨_, rfl, ?_, fun status exited => ?_⟩
  · split <;> rfl
  · split
    · dsimp only
      rw [exited]
      rfl
    · exact exited

theorem grows_append (world : World) (proc : Proc) : Grows world { world with procs := world.procs ++ [proc] } := by
  intro serial other present
  obtain ⟨bounded, -⟩ := List.getElem?_eq_some_iff.mp present
  exact ⟨other, (List.getElem?_append_left bounded).trans present, rfl, fun _ => id⟩

/-! ## Objects, their handles and their processes -/

structure Fits (world : World) (name : Nat) (object : Object) : Prop where
  handled : ∀ handle, world.handle name = some handle → object.subject = some handle.serial ∧ handle.query = !object.attached
  /-- A number other than those of empty objects is that of the process that the handle is for. -/
  numbered : object.pid ≠ 0 → object.pid ≠ movedPid → ∃ handle proc, world.handle name = some handle ∧
    world.procs[handle.serial]? = some proc ∧ proc.pid.val = object.pid
  /-- A status is the exit code of the process that the object was made for. -/
  known : object.exitStatus ≠ stillActive → object.attached = false ∧
    ∃ (serial : Nat) (proc : Proc), object.subject = some serial ∧
    world.procs[serial]? = some proc ∧ proc.exited = some object.exitStatus

structure Sound (world : World) : Prop where
  owners : world.owners.Sound
  opened : ∀ inst ∈ world.owners.acquired, inst < world.handles.length
  serials : ∀ handle ∈ world.handles, handle.serial < world.procs.length
  fits : ∀ name object, world.objects name = some object → Fits world name object
  absent : ∀ name, world.objects name = none → world.owners.held name = none

theorem Fits.grow {place : Nat} (fits : Fits world name object) (same : next.handle place = world.handle name)
    (grows : Grows world next) :
    Fits next place object := by
  refine ⟨?_, fun some' distinct => ?_, fun status => ?_⟩
  · rw [same]
    exact fits.handled
  · obtain ⟨handle, proc, has, present, number⟩ := fits.numbered some' distinct
    obtain ⟨later, present, equal, -⟩ := grows handle.serial proc present
    exact ⟨handle, later, same.trans has, present, (congrArg _ equal).trans number⟩
  · obtain ⟨own, serial, proc, subject, present, exited⟩ := fits.known status
    obtain ⟨later, present, -, kept⟩ := grows serial proc present
    exact ⟨own, serial, later, subject, present, kept _ exited⟩

theorem objects_set {left : Option Object} {stored : Object} {place : Nat}
    (entry : (world.set name left).objects place = some stored) :
    place = name ∧ left = some stored ∨ place ≠ name ∧ world.objects place = some stored := by
  unfold World.set at entry
  dsimp only at entry
  rw [Function.update_apply] at entry
  split at entry
  · rename_i same
    exact .inl ⟨same, entry⟩
  · rename_i distinct
    exact .inr ⟨distinct, entry⟩

theorem absent_set {left : Option Object} {place : Nat} (entry : (world.set name left).objects place = none) :
    place = name ∧ left = none ∨ place ≠ name ∧ world.objects place = none := by
  unfold World.set at entry
  dsimp only at entry
  rw [Function.update_apply] at entry
  split at entry
  · rename_i same
    exact .inl ⟨same, entry⟩
  · rename_i distinct
    exact .inr ⟨distinct, entry⟩

namespace Sound

/-- A handle that an object has is one that was opened. -/
theorem handle_mem {handle : Handle} (has : world.handle name = some handle) : handle ∈ world.handles := by
  obtain ⟨inst, -, found⟩ := Option.bind_eq_some_iff.mp has
  exact List.mem_of_getElem? found

theorem set (sound : Sound world) (fits : Fits world name object) : Sound (world.set name (some object)) := by
  refine ⟨sound.owners, sound.opened, sound.serials, fun other stored entry => ?_, fun other entry => ?_⟩
  · obtain ⟨rfl, same⟩ | ⟨-, old⟩ := objects_set entry
    · cases same
      exact fits.grow rfl (.refl _)
    · exact (sound.fits other stored old).grow rfl (.refl _)
  · obtain ⟨-, same⟩ | ⟨-, old⟩ := absent_set entry
    · cases same
    · exact sound.absent other old

/-- Processes end or begin. -/
theorem grow (sound : Sound world) {procs : List Proc} (grows : Grows world { world with procs := procs })
    (longer : world.procs.length ≤ procs.length) : Sound { world with procs := procs } :=
  ⟨sound.owners, sound.opened, fun handle member => Nat.lt_of_lt_of_le (sound.serials handle member) longer,
    fun name object entry => (sound.fits name object entry).grow rfl grows, sound.absent⟩

/-- What is kept of calls. -/
theorem around (sound : Sound world) (selfSuspended : Bool) (events closes : List (Option Nat × Nat)) :
    Sound { world with selfSuspended := selfSuspended, events := events, closes := closes } :=
  ⟨sound.owners, sound.opened, sound.serials, fun name object entry =>
    (sound.fits name object entry).grow rfl (.refl _), sound.absent⟩

theorem finish (sound : Sound world) (serial code : Nat) : Sound (world.finish serial code) :=
  sound.grow (grows_finish world serial code) (Nat.le_of_eq (List.length_modify ..).symm)

/-- An object is made for a process to which a handle is opened. -/
theorem acquire {procs : List Proc} {handle : Handle} {proc : Proc} (sound : Sound world) (vacant : world.objects name = none)
    (grows : Grows world { world with procs := procs }) (longer : world.procs.length ≤ procs.length)
    (present : procs[handle.serial]? = some proc) (pid : object.pid = proc.pid.val) (blank : object.exitStatus = stillActive)
    (subject : object.subject = some handle.serial) (query : handle.query = !object.attached) :
    Sound (World.set { world with
      procs := procs
      handles := world.handles ++ [handle]
      owners := world.owners.acquire name world.handles.length } name (some object)) := by
  have fresh : world.handles.length ∉ world.owners.acquired := fun member => Nat.lt_irrefl _ (sound.opened _ member)
  have nothing := sound.absent name vacant
  have held (place : Nat) : (world.owners.acquire name world.handles.length).held place =
      if place = name then some world.handles.length else world.owners.held place := Function.update_apply ..
  refine ⟨sound.owners.acquire nothing fresh, ?_, ?_, ?_, ?_⟩
  · intro inst member
    refine Nat.lt_of_lt_of_eq ?_ List.length_append.symm
    cases List.mem_cons.mp member with
    | inl same =>
      rw [same]
      exact Nat.lt_succ_self _
    | inr old => exact Nat.lt_add_right _ (sound.opened inst old)
  · intro other member
    cases List.mem_append.mp member with
    | inl old => exact Nat.lt_of_lt_of_le (sound.serials other old) longer
    | inr new =>
      rw [List.mem_singleton.mp new]
      exact (List.getElem?_eq_some_iff.mp present).1
  · intro place stored entry
    obtain ⟨rfl, same⟩ | ⟨distinct, old⟩ := objects_set entry
    · cases same
      have has : World.handle (World.set { world with
          procs := procs
          handles := world.handles ++ [handle]
          owners := world.owners.acquire place world.handles.length } place (some object)) place = some handle := by
        unfold World.handle World.set
        dsimp only
        rw [held, if_pos rfl]
        exact List.getElem?_concat_length ..
      -- the new object has the new handle, and no status yet
      refine ⟨fun other also => ?_, fun _ _ => ⟨handle, proc, has, present, pid.symm⟩, fun status => absurd blank status⟩
      rw [has] at also
      cases also
      exact ⟨subject, query⟩
    · -- the handles of the others keep their places
      refine (sound.fits place stored old).grow ?_ grows
      unfold World.handle World.set
      dsimp only
      rw [held, if_neg distinct]
      cases owned : world.owners.held place with
      | none => rfl
      | some inst => exact List.getElem?_append_left (sound.opened inst (sound.owners.known owned))
  · intro place entry
    obtain ⟨-, same⟩ | ⟨distinct, old⟩ := absent_set entry
    · cases same
    · exact (held place).trans ((if_neg distinct).trans (sound.absent place old))

theorem remove (sound : Sound world) (name : Nat) : Sound ((world.closeHandle name).set name none) := by
  have held (place : Nat) : (world.closeHandle name).owners.held place = if place = name then none else world.owners.held place :=
    Ledger.held_finish place
  refine ⟨sound.owners.finish name _, sound.opened, sound.serials, ?_, ?_⟩
  · intro place stored entry
    obtain ⟨-, same⟩ | ⟨distinct, old⟩ := objects_set entry
    · cases same
    · refine (sound.fits place stored old).grow ?_ (.refl _)
      unfold World.handle World.set
      dsimp only
      rw [held, if_neg distinct]
      rfl
  · intro place entry
    refine (held place).trans ?_
    obtain ⟨same, -⟩ | ⟨distinct, old⟩ := absent_set entry
    · exact if_pos same
    · exact (if_neg distinct).trans (sound.absent place old)

/-- What an object with another one's handle and status may be. -/
structure Derives (object derived : Object) : Prop where
  subject : derived.subject = object.subject
  attached : derived.attached = object.attached
  exitStatus : derived.exitStatus = object.exitStatus ∨ derived.exitStatus = stillActive

theorem handOver {moved left : Object} (sound : Sound world) (vacant : world.objects name = none)
    (entry : world.objects source = some other) (goes : Derives other moved) (same : moved.pid = other.pid)
    (stays : Derives other left)
    (empty : left.pid = 0 ∨ left.pid = movedPid) : Sound (world.handOver source name moved left) := by
  have distinct : name ≠ source := by
    rintro rfl
    exact nomatch vacant.symm.trans entry
  have fits := sound.fits source other entry
  have held (place : Nat) : (world.owners.give source name).held place =
      if place = source then none else if place = name then world.owners.held source else world.owners.held place :=
    Ledger.held_give place
  -- either object has the status of the original, or none
  have status {derived : Object} (derives : Derives other derived) (known : derived.exitStatus ≠ stillActive) :
      derived.attached = false ∧ ∃ (serial : Nat) (proc : Proc), derived.subject = some serial ∧
        world.procs[serial]? = some proc ∧
        proc.exited = some derived.exitStatus := by
    have equal := derives.exitStatus.resolve_right known
    rw [derives.subject, derives.attached, equal]
    exact fits.known (equal ▸ known)
  refine ⟨sound.owners.give source (sound.absent name vacant), sound.opened, sound.serials, ?_, ?_⟩
  · intro place stored found
    have handle : (world.handOver source name moved left).handle place =
        if place = source then none else if place = name then world.handle source else world.handle place := by
      unfold World.handle World.handOver World.set
      dsimp only
      rw [held]
      split
      · rfl
      · split <;> rfl
    -- the object that gives its handle away, the one that gets it, and all others
    obtain ⟨rfl, equal⟩ | ⟨elsewhere, found⟩ := objects_set found
    · cases equal
      rw [if_pos rfl] at handle
      refine ⟨fun handle' has => (nomatch handle.symm.trans has), fun some' another => ?_, status stays⟩
      exact (empty.elim some' another).elim
    · rw [if_neg elsewhere] at handle
      obtain ⟨rfl, equal⟩ | ⟨another, found⟩ := objects_set found
      · cases equal
        rw [if_pos rfl] at handle
        refine ⟨fun handle' has => ?_, fun some' another => ?_, status goes⟩
        · rw [goes.subject, goes.attached]
          exact fits.handled handle' (handle.symm.trans has)
        · rw [same] at some' another ⊢
          obtain ⟨handle', proc, has, present, number⟩ := fits.numbered some' another
          exact ⟨handle', proc, handle.trans has, present, number⟩
      · rw [if_neg another] at handle
        exact (sound.fits place stored found).grow handle (.refl _)
  · intro place found
    refine (held place).trans ?_
    obtain ⟨equal, -⟩ | ⟨elsewhere, found⟩ := absent_set found
    · exact if_pos equal
    · refine (if_neg elsewhere).trans ?_
      obtain ⟨-, equal⟩ | ⟨another, found⟩ := absent_set found
      · cases equal
      · exact (if_neg another).trans (sound.absent place found)

end Sound

/-! ## Statuses -/

/-- What running and the end of wait make of an object: a code of its process comes to an object that may query it. -/
theorem Fits.learn (fits : Fits world name object) : Fits world name (world.learn name object) := by
  unfold World.learn
  split
  · exact fits
  · rename_i code learned
    obtain ⟨handle, has, got⟩ := Option.bind_eq_some_iff.mp learned
    obtain ⟨query, same⟩ := Option.ite_none_right_eq_some.mp got
    obtain ⟨subject, rights⟩ := fits.handled handle has
    refine ⟨fits.handled, fits.numbered, fun known => ?_⟩
    have own : object.attached = false := by
      rw [query] at rights
      simpa using rights.symm
    refine ⟨own, handle.serial, ?_⟩
    cases same
    have known : world.code handle.serial ≠ stillActive := known
    cases present : world.procs[handle.serial]? with
    | none =>
      unfold World.code at known
      rw [present] at known
      exact absurd rfl known
    | some proc =>
      cases exited : proc.exited with
      | none =>
        unfold World.code at known
        rw [present, Option.bind_some, exited] at known
        exact absurd rfl known
      | some status =>
        refine ⟨proc, subject, rfl, ?_⟩
        unfold World.code
        rw [present, Option.bind_some, exited]
        rfl

/-- running either leaves the object or stores what the handle knows. -/
theorem running_eq (world : World) (name : Nat) (object : Object) :
    (world.running name object).2 = object ∨ (world.running name object).2 = world.learn name object := by
  unfold World.running World.handleRunning World.learn
  split
  · cases has : world.handle name with
    | none => exact .inl rfl
    | some handle =>
      rw [Option.bind_some, Option.bind_some]
      cases got : world.getExitCode handle with
      | none => exact .inl rfl
      | some code =>
        rw [Option.map_some]
        by_cases runs : processIsRunning code = true
        · rw [if_pos runs]
          exact .inl rfl
        · rw [if_neg runs]
          exact .inr rfl
  · exact .inl rfl

theorem Fits.running (fits : Fits world name object) : Fits world name (world.running name object).2 := by
  obtain same | same := running_eq world name object
  · rw [same]
    exact fits
  · rw [same]
    exact fits.learn

theorem Fits.finish (fits : Fits world name object) (serial code : Nat) :
    Fits (world.finish serial code) name ((world.finish serial code).learn name object) :=
  have ended : Fits (world.finish serial code) name object := fits.grow rfl (grows_finish world serial code)
  ended.learn

theorem wait_sound (sound : Sound world) (entry : world.objects name = some object) (code : Nat) :
    Sound ((world.wait name object code).1.set name (some (world.wait name object code).2)) := by
  have fits := (sound.fits name object entry).running
  unfold World.wait
  generalize world.running name object = outcome at fits
  obtain ⟨runs, after⟩ := outcome
  dsimp only at fits ⊢
  split
  · rename_i handle asked _
    cases asked
    exact (sound.finish handle.serial code).set (fits.finish handle.serial code)
  · rename_i asked _
    cases asked
    exact sound.set fits

theorem terminate_sound (sound : Sound world) (entry : world.objects name = some object) :
    Sound ((world.terminate name object).1.set name (some (world.terminate name object).2)) := by
  have fits := sound.fits name object entry
  unfold World.terminate
  split
  · exact sound.set fits
  · rename_i handle has
    split
    · exact sound.set fits
    · exact (sound.finish handle.serial 260).set (fits.finish handle.serial 260)

/-- The destructor ends no process but that of the object, and leaves none that it may query. -/
theorem terminateIfRunning_cases (world : World) (name : Nat) :
    world.terminateIfRunning name = world ∨
      ∃ handle, world.handle name = some handle ∧ world.terminateIfRunning name = world.finish handle.serial 260 := by
  unfold World.terminateIfRunning
  split
  · exact .inl rfl
  · rename_i handle has
    split
    · exact .inl rfl
    · split
      · exact .inr ⟨handle, has, rfl⟩
      · exact .inl rfl

theorem terminateIfRunning_sound (sound : Sound world) (name : Nat) : Sound (world.terminateIfRunning name) := by
  obtain same | ⟨handle, -, same⟩ := terminateIfRunning_cases world name
  · rw [same]
    exact sound
  · rw [same]
    exact sound.finish handle.serial 260

theorem moveConstruct_some (taken : step world (.moveConstruct name source) = some next) :
    ∃ other, world.objects name = none ∧ world.objects source = some other ∧
      next = world.handOver source name other other.released := by
  simp only [step] at taken
  split at taken
  · rename_i other vacant entry
    exact ⟨other, vacant, entry, (Option.some.inj taken).symm⟩
  · cases taken

theorem moveAssign_some (taken : step world (.moveAssign name source) = some next) :
    ∃ self other, world.objects name = some self ∧ world.objects source = some other ∧
      (name = source ∧ next = world.set name (some other.released) ∨
        name ≠ source ∧ next = (world.closeHandle name).handOver source name other other.released) := by
  simp only [step] at taken
  split at taken
  · rename_i self other here entry
    refine ⟨self, other, here, entry, ?_⟩
    obtain ⟨-, taken⟩ := Option.ite_none_left_eq_some.mp taken
    split at taken
    · rename_i same
      exact .inl ⟨same, (Option.some.inj taken).symm⟩
    · rename_i distinct
      exact .inr ⟨distinct, (Option.some.inj taken).symm⟩
  · cases taken

theorem detach_some {target : Nat} (taken : step world (.detach name target) = some next) :
    ∃ object, world.objects target = none ∧ world.objects name = some object ∧ object.owning = true ∧
      next = world.handOver name target { object with owning := false, exitStatus := stillActive } { object with pid := 0 } := by
  simp only [step] at taken
  split at taken
  · rename_i object vacant entry
    obtain ⟨owning, same⟩ := Option.ite_none_right_eq_some.mp taken
    exact ⟨object, vacant, entry, owning, (Option.some.inj same).symm⟩
  · cases taken

theorem attach_some {serial : Nat} (taken : step world (.attach name serial) = some next) :
    ∃ proc : Proc, world.objects name = none ∧ world.procs[serial]? = some proc ∧ next = World.set { world with
      handles := world.handles ++ [(⟨serial, false⟩ : Handle)]
      owners := world.owners.acquire name world.handles.length } name
        (some { pid := proc.pid.val, subject := some serial, attached := true }) := by
  simp only [step] at taken
  split at taken
  · rename_i proc vacant present
    exact ⟨proc, vacant, present, (Option.some.inj taken).symm⟩
  · cases taken

theorem set_idem (world : World) (name : Nat) (first second : Option Object) :
    (world.set name first).set name second = world.set name second := by
  unfold World.set
  dsimp only
  rw [Function.update_idem]

theorem step_sound : Preserves step (fun _ _ => True) Sound := by
  intro world op next sound _ taken
  cases op with
  | construct name =>
    simp only [step] at taken
    obtain ⟨vacant, ⟨⟩⟩ := Option.ite_none_right_eq_some.mp taken
    have nothing := sound.absent name vacant
    refine sound.set ⟨fun handle has => ?_, fun some' => absurd rfl some', fun known => absurd rfl known⟩
    unfold World.handle at has
    rw [nothing] at has
    cases has
  | launch name pid =>
    simp only [step] at taken
    obtain ⟨vacant, ⟨⟩⟩ := Option.ite_none_right_eq_some.mp taken
    have longer : world.procs.length ≤ (world.procs ++ [(⟨pid, none⟩ : Proc)]).length := by
      rw [List.length_append]
      omega
    exact sound.acquire vacant (grows_append world ⟨pid, none⟩) longer List.getElem?_concat_length rfl rfl rfl rfl
  | attach name serial =>
    obtain ⟨proc, vacant, present, rfl⟩ := attach_some taken
    exact sound.acquire vacant (.refl world) (Nat.le_refl _) present rfl rfl rfl rfl
  | foreign pid =>
    cases taken
    apply sound.grow (grows_append world ⟨pid, none⟩)
    rw [List.length_append]
    omega
  | exit serial code =>
    simp only [step] at taken
    obtain ⟨-, ⟨⟩⟩ := Option.ite_none_right_eq_some.mp taken
    exact sound.finish serial code
  | moveConstruct name source =>
    obtain ⟨other, vacant, entry, rfl⟩ := moveConstruct_some taken
    exact sound.handOver vacant entry ⟨rfl, rfl, .inl rfl⟩ rfl ⟨rfl, rfl, .inl rfl⟩ (.inr rfl)
  | moveAssign name source =>
    obtain ⟨self, other, -, entry, ⟨rfl, rfl⟩ | ⟨distinct, rfl⟩⟩ := moveAssign_some taken
    · -- a self-assignment keeps the handle and only sets the number
      have fits := sound.fits name other entry
      exact sound.set ⟨fits.handled, fun _ another => absurd rfl another, fits.known⟩
    · -- the target closes its handle before it gets the other one
      have removed := sound.remove name
      have stays : Sound.Derives other other.released := ⟨rfl, rfl, .inl rfl⟩
      have moved := removed.handOver (Function.update_self ..) ((Function.update_of_ne (Ne.symm distinct) ..).trans entry)
        ⟨rfl, rfl, .inl rfl⟩ rfl stays (.inr rfl)
      have same :=
        set_idem { world.closeHandle name with owners := (world.closeHandle name).owners.give source name } name none (some other)
      unfold World.handOver
      rw [← same]
      exact moved
  | detach name target =>
    obtain ⟨object, vacant, entry, -, rfl⟩ := detach_some taken
    exact sound.handOver vacant entry ⟨rfl, rfl, .inr rfl⟩ rfl ⟨rfl, rfl, .inl rfl⟩ (.inl rfl)
  | running name =>
    obtain ⟨object, entry, rfl⟩ := Option.map_eq_some_iff.mp taken
    exact sound.set (sound.fits name object entry).running
  | wait name code =>
    obtain ⟨object, entry, rfl⟩ := Option.map_eq_some_iff.mp taken
    exact wait_sound sound entry code
  | terminate name =>
    obtain ⟨object, entry, rfl⟩ := Option.map_eq_some_iff.mp taken
    exact terminate_sound sound entry
  | suspend name accepted =>
    obtain ⟨object, entry, rfl⟩ := Option.map_eq_some_iff.mp taken
    unfold World.suspend
    split
    · exact sound.around true world.events world.closes
    · split
      · exact sound.around true world.events world.closes
      · exact sound
  | interrupt name =>
    obtain ⟨object, entry, rfl⟩ := Option.map_eq_some_iff.mp taken
    unfold World.interrupt
    split
    · exact sound
    · exact sound.around world.selfSuspended _ world.closes
  | requestExit name =>
    obtain ⟨object, entry, rfl⟩ := Option.map_eq_some_iff.mp taken
    unfold World.requestExit
    split
    · exact sound
    · exact sound.around world.selfSuspended world.events _
  | destroy name =>
    obtain ⟨object, entry, rfl⟩ := Option.map_eq_some_iff.mp taken
    split
    · exact (terminateIfRunning_sound sound name).remove name
    · exact sound.remove name

theorem sound_start (own : ProcessId) : Sound (start own) where
  owners := Ledger.sound_empty
  opened := nofun
  serials := nofun
  fits := nofun
  absent _ _ := rfl

/-- In every run a status other than STILL_ACTIVE is the exit code of the process for which the object, or one that it was moved
from, was launched. An object that was made from a number never has one. -/
theorem status_of_run (self : ProcessId) (final : World) (ops : List Op) (reached : run step (start self) ops = some final)
    (name : Nat) (object : Object)
    (entry : final.objects name = some object) (known : object.exitStatus ≠ stillActive) : object.attached = false ∧
      ∃ (serial : Nat) (proc : Proc), object.subject = some serial ∧ final.procs[serial]? = some proc ∧
        proc.exited = some object.exitStatus :=
  have sound := run_invariant step_sound (sound_start self) admits_true reached
  (sound.fits name object entry).known known

def self : ProcessId := ⟨4, by decide⟩

/-- One process is waited for by the object that it was moved to, and one was attached to. -/
def learned : List Op :=
  [.launch 0 ⟨8, by decide⟩, .moveConstruct 1 0, .wait 1 3, .foreign ⟨12, by decide⟩, .attach 2 2, .exit 2 5, .running 2]

theorem status_of_run_learned : ∃ final object proc, run step (start self) learned = some final ∧ final.objects 1 = some object ∧
    object.exitStatus = 3 ∧ final.procs[1]? = some proc ∧ proc.exited = some object.exitStatus := by
  obtain ⟨-, serial, proc, subject, present, exited⟩ := status_of_run self _ learned rfl 1 _ rfl (by decide)
  cases subject
  exact ⟨_, _, proc, rfl, rfl, rfl, present, exited⟩

/-- The code of a process that was attached to stays unknown. -/
example : (run step (start self) learned).bind (fun final => (final.objects 2).map Object.exitStatus) = some stillActive := by rfl

/-! ## Calls on objects that have no process -/

def Op.Calls : Op → Prop
  | .suspend _ _ => True
  | .interrupt _ => True
  | .requestExit _ => True
  | _ => False

/-- An object loses its handle. -/
def Op.LetsGo : Op → Prop
  | .moveAssign _ _ => True
  | .destroy _ => True
  | _ => False

structure Effect (world next : World) (op : Op) : Prop where
  grows : Grows world next
  handles : world.handles <+: next.handles
  calls : ¬ op.Calls → next.selfSuspended = world.selfSuspended ∧ next.events = world.events ∧ next.closes = world.closes
  ended : ¬ op.LetsGo → next.owners.ended = world.owners.ended

/-- A call that changes nothing but the objects and the processes. -/
theorem effect_act (grows : Grows world next) (handles : next.handles = world.handles)
    (calls : next.selfSuspended = world.selfSuspended ∧ next.events = world.events ∧ next.closes = world.closes)
    (ended : next.owners = world.owners) :
    Effect world next op :=
  ⟨grows, handles ▸ List.prefix_refl _, fun _ => calls, fun _ => ended ▸ rfl⟩

/-- What may end the process of an object, and nothing else. -/
theorem effect_finish {only : World} (ends : only = world ∨ ∃ serial code, only = world.finish serial code) :
    Effect world only op := by
  obtain rfl | ⟨serial, code, rfl⟩ := ends
  · exact effect_act (.refl _) rfl ⟨rfl, rfl, rfl⟩ rfl
  · exact effect_act (grows_finish world serial code) rfl ⟨rfl, rfl, rfl⟩ rfl

theorem wait_cases (world : World) (name : Nat) (object : Object) (code : Nat) :
    (world.wait name object code).1 = world ∨ ∃ serial code', (world.wait name object code).1 = world.finish serial code' := by
  unfold World.wait
  split
  · exact .inr ⟨_, _, rfl⟩
  · exact .inl rfl

theorem terminate_cases (world : World) (name : Nat) (object : Object) :
    (world.terminate name object).1 = world ∨ ∃ serial code, (world.terminate name object).1 = world.finish serial code := by
  unfold World.terminate
  split
  · exact .inl rfl
  · split
    · exact .inl rfl
    · exact .inr ⟨_, _, rfl⟩

theorem effect_of_step (taken : step world op = some next) : Effect world next op := by
  cases op with
  | construct name =>
    simp only [step] at taken
    obtain ⟨-, ⟨⟩⟩ := Option.ite_none_right_eq_some.mp taken
    exact effect_act (.refl _) rfl ⟨rfl, rfl, rfl⟩ rfl
  | launch name pid =>
    simp only [step] at taken
    obtain ⟨-, ⟨⟩⟩ := Option.ite_none_right_eq_some.mp taken
    exact ⟨grows_append world ⟨pid, none⟩, List.prefix_append .., fun _ => ⟨rfl, rfl, rfl⟩, fun _ => rfl⟩
  | attach name serial =>
    obtain ⟨proc, -, -, rfl⟩ := attach_some taken
    exact ⟨.refl _, List.prefix_append .., fun _ => ⟨rfl, rfl, rfl⟩, fun _ => rfl⟩
  | foreign pid =>
    cases taken
    exact effect_act (grows_append world ⟨pid, none⟩) rfl ⟨rfl, rfl, rfl⟩ rfl
  | exit serial code =>
    simp only [step] at taken
    obtain ⟨-, ⟨⟩⟩ := Option.ite_none_right_eq_some.mp taken
    exact effect_act (grows_finish world serial code) rfl ⟨rfl, rfl, rfl⟩ rfl
  | moveConstruct name source =>
    obtain ⟨other, -, -, rfl⟩ := moveConstruct_some taken
    exact ⟨.refl _, List.prefix_refl _, fun _ => ⟨rfl, rfl, rfl⟩, fun _ => rfl⟩
  | moveAssign name source =>
    obtain ⟨self, other, -, -, ⟨-, rfl⟩ | ⟨-, rfl⟩⟩ := moveAssign_some taken
    · exact effect_act (.refl _) rfl ⟨rfl, rfl, rfl⟩ rfl
    · exact ⟨.refl _, List.prefix_refl _, fun _ => ⟨rfl, rfl, rfl⟩, fun kept => absurd trivial kept⟩
  | detach name target =>
    obtain ⟨object, -, -, -, rfl⟩ := detach_some taken
    exact ⟨.refl _, List.prefix_refl _, fun _ => ⟨rfl, rfl, rfl⟩, fun _ => rfl⟩
  | running name =>
    obtain ⟨object, -, rfl⟩ := Option.map_eq_some_iff.mp taken
    exact effect_act (.refl _) rfl ⟨rfl, rfl, rfl⟩ rfl
  | wait name code =>
    obtain ⟨object, -, rfl⟩ := Option.map_eq_some_iff.mp taken
    have waited : Effect world (world.wait name object code).1 (.wait name code) :=
      effect_finish (wait_cases world name object code)
    exact ⟨waited.grows, waited.handles, waited.calls, waited.ended⟩
  | terminate name =>
    obtain ⟨object, -, rfl⟩ := Option.map_eq_some_iff.mp taken
    have ended : Effect world (world.terminate name object).1 (.terminate name) :=
      effect_finish (terminate_cases world name object)
    exact ⟨ended.grows, ended.handles, ended.calls, ended.ended⟩
  | suspend name accepted =>
    obtain ⟨object, -, rfl⟩ := Option.map_eq_some_iff.mp taken
    unfold World.suspend
    split
    · exact ⟨.refl _, List.prefix_refl _, fun quiet => absurd trivial quiet, fun _ => rfl⟩
    · split <;> exact ⟨.refl _, List.prefix_refl _, fun quiet => absurd trivial quiet, fun _ => rfl⟩
  | interrupt name =>
    obtain ⟨object, -, rfl⟩ := Option.map_eq_some_iff.mp taken
    unfold World.interrupt
    split <;> exact ⟨.refl _, List.prefix_refl _, fun quiet => absurd trivial quiet, fun _ => rfl⟩
  | requestExit name =>
    obtain ⟨object, -, rfl⟩ := Option.map_eq_some_iff.mp taken
    unfold World.requestExit
    split <;> exact ⟨.refl _, List.prefix_refl _, fun quiet => absurd trivial quiet, fun _ => rfl⟩
  | destroy name =>
    obtain ⟨object, -, rfl⟩ := Option.map_eq_some_iff.mp taken
    -- the destructor of a process terminates what still runs, a handle alone does not
    have terminated : Effect world (world.terminateIfRunning name) (.running name) :=
      effect_finish ((terminateIfRunning_cases world name).imp_right fun ⟨handle, _, same⟩ => ⟨handle.serial, 260, same⟩)
    split
    · exact ⟨terminated.grows, terminated.handles, fun _ => terminated.calls id, fun kept => absurd trivial kept⟩
    · exact ⟨.refl _, List.prefix_refl _, fun _ => ⟨rfl, rfl, rfl⟩, fun kept => absurd trivial kept⟩

/-- suspend is only for objects that have a handle, which is not accepted if it is one of this process, and interrupt is not for
objects that were moved from. -/
def Present (world : World) : Op → Prop
  | .suspend name accepted => ∀ object, world.objects name = some object →
    ∃ handle, world.handle name = some handle ∧ (handle.serial = 0 → accepted = false)
  | .interrupt name => ∀ object, world.objects name = some object → object.pid ≠ movedPid
  | _ => True

/-- This process has not been suspended, and each console event was sent with the number of the process that the object has a
handle of. -/
def Direct (world : World) : Prop := world.selfSuspended = false ∧ ∀ event ∈ world.events, event.1 = some event.2

/-- The number of an object, if it has one that a process can have, is that of the process that it has a handle of. -/
theorem number_eq_some_iff (fits : Fits world name object) (some' : object.pid ≠ 0) :
    world.number name = some object.pid ↔ object.pid ≠ movedPid := by
  unfold World.number
  constructor
  · intro same moved
    obtain ⟨handle, -, found⟩ := Option.bind_eq_some_iff.mp same
    obtain ⟨proc, -, number⟩ := Option.map_eq_some_iff.mp found
    exact proc.pid.property.2 (number.trans moved)
  · intro other
    obtain ⟨handle, proc, has, present, number⟩ := fits.numbered some' other
    rw [has, Option.bind_some, present, Option.map_some, number]

theorem direct_of_step (sound : Sound world) (taken : step world op = some next) :
    Direct next ↔ Direct world ∧ Present world op := by
  by_cases calls : op.Calls
  · cases op with
    | suspend name accepted =>
      obtain ⟨object, entry, rfl⟩ := Option.map_eq_some_iff.mp taken
      have present : Present world (.suspend name accepted) ↔
          ∃ handle, world.handle name = some handle ∧ (handle.serial = 0 → accepted = false) :=
        ⟨fun all => all object entry, fun has _ _ => has⟩
      rw [present]
      unfold World.suspend
      -- without a handle NtSuspendProcess gets the pseudo handle of this process
      cases has : world.handle name with
      | none => exact iff_of_false (fun direct => nomatch direct.1) fun both => nomatch both.2.choose_spec.1
      | some handle =>
        dsimp only
        split
        · rename_i own
          refine iff_of_false (fun direct => nomatch direct.1) fun both => ?_
          obtain ⟨-, _, found, refused⟩ := both
          cases found
          exact nomatch own.2.symm.trans (refused own.1)
        · rename_i other
          refine (and_iff_left ⟨handle, rfl, fun own => ?_⟩).symm
          exact Bool.eq_false_iff.mpr fun accepted => other ⟨own, accepted⟩
    | interrupt name =>
      obtain ⟨object, entry, rfl⟩ := Option.map_eq_some_iff.mp taken
      have present : Present world (.interrupt name) ↔ object.pid ≠ movedPid :=
        ⟨fun all => all object entry, fun other _ same => Option.some.inj (entry.symm.trans same) ▸ other⟩
      rw [present]
      unfold World.interrupt
      -- check_pid_ stops at the number 0 only
      by_cases empty : object.pid = 0
      · rw [if_pos empty]
        refine (and_iff_left ?_).symm
        rw [empty]
        decide
      · rw [if_neg empty]
        unfold Direct
        rw [and_assoc, List.forall_mem_cons, and_comm (b := ∀ _ ∈ world.events, _),
          number_eq_some_iff (sound.fits name object entry) empty]
    | requestExit name =>
      obtain ⟨object, entry, rfl⟩ := Option.map_eq_some_iff.mp taken
      refine Iff.trans ?_ (and_iff_left trivial).symm
      unfold World.requestExit
      split <;> rfl
    | _ => exact absurd calls id
  · obtain ⟨suspended, events, -⟩ := (effect_of_step taken).calls calls
    unfold Direct
    rw [suspended, events]
    refine (and_iff_left ?_).symm
    cases op with
    | suspend name accepted => exact absurd trivial calls
    | interrupt name => exact absurd trivial calls
    | _ => trivial

/-- WM_CLOSE goes to no process but that of the object. -/
def Polite (world : World) : Prop := ∀ close ∈ world.closes, close.1 = some close.2 ∨ close.2 = movedPid

theorem step_polite : Preserves step (fun _ _ => True) fun world => Sound world ∧ Polite world := by
  rintro world op next ⟨sound, polite⟩ - taken
  refine ⟨step_sound world op next sound trivial taken, ?_⟩
  by_cases calls : op.Calls
  · cases op with
    | suspend name accepted =>
      obtain ⟨object, -, rfl⟩ := Option.map_eq_some_iff.mp taken
      unfold World.suspend
      split
      · exact polite
      · split <;> exact polite
    | interrupt name =>
      obtain ⟨object, -, rfl⟩ := Option.map_eq_some_iff.mp taken
      unfold World.interrupt
      split <;> exact polite
    | requestExit name =>
      obtain ⟨object, entry, rfl⟩ := Option.map_eq_some_iff.mp taken
      unfold World.requestExit
      split
      · exact polite
      · rename_i some'
        intro close member
        cases List.mem_cons.mp member with
        | inr old => exact polite close old
        | inl new =>
          rw [new]
          exact or_iff_not_imp_right.mpr (number_eq_some_iff (sound.fits name object entry) some').mpr
    | _ => exact absurd calls id
  · have closes := ((effect_of_step taken).calls calls).2.2
    unfold Polite
    rw [closes]
    exact polite

/-- suspend on an object without a handle suspends this process, as does one on a handle of this process that is accepted, and
the interrupt of an object that was moved from is sent with a number that no process has. Nothing else goes astray: WM_CLOSE
goes to windows of the process that the object has a handle of, or of none. -/
theorem direct_iff_present (self : ProcessId) (final : World) (ops : List Op) (reached : run step (start self) ops = some final) :
    (Direct final ↔ Admits step Present (start self) ops) ∧
      ∀ close ∈ final.closes, close.1 = some close.2 ∨ ∀ proc ∈ final.procs, proc.pid.val ≠ close.2 := by
  constructor
  · refine @last_iff_admits_of_sound World Op step Present Sound Direct step_sound ?_ ?_ (start self) final ops (sound_start self)
      ⟨rfl, nofun⟩ reached
    · intro world op next sound direct taken
      exact (direct_of_step sound taken).trans (and_iff_right direct)
    · intro world op next sound astray taken direct
      exact astray ((direct_of_step sound taken).mp direct).1
  · intro close member
    have polite := (run_invariant step_polite ⟨sound_start self, nofun⟩ admits_true reached).2
    refine (polite close member).imp_right fun moved proc _ => ?_
    rw [moved]
    exact proc.pid.property.2

/-- Calls on a process that was attached to, on one that was launched and on an object without a process. -/
def called : List Op := learned ++ [.suspend 2 true, .interrupt 1, .requestExit 1, .requestExit 0, .construct 3, .interrupt 3]

theorem direct_iff_present_learned : ∃ final, run step (start self) called = some final ∧ Direct final ∧
    Admits step Present (start self) called ∧ final.closes = [(none, movedPid), (some 8, 8)] := by
  have direct := (direct_iff_present self _ called rfl).1.mp ⟨rfl, by decide⟩
  exact ⟨_, rfl, ⟨rfl, by decide⟩, direct, rfl⟩

/-- suspend behind a move suspends this process, and one on its own number may. -/
example : (run step (start self) [.launch 0 ⟨8, by decide⟩, .moveConstruct 1 0, .suspend 0 false]).map World.selfSuspended =
  some true ∧
    (run step (start self) [.attach 0 0, .suspend 0 true]).map World.selfSuspended = some true := by decide

/-! ## Processes that are left running -/

/-- No assignment replaces the handle of a launched process that runs, and no such handle goes without a process object. -/
def Tidy (world : World) : Op → Prop
  | .moveAssign name source => name = source ∨ ¬ world.Leaves name
  | .destroy name => ∀ object, world.objects name = some object → object.owning = true ∨ ¬ world.Leaves name
  | _ => True

theorem exited_finish (world : World) (serial code : Nat) (present : serial < world.procs.length) :
    (world.finish serial code).exited serial = true := by
  unfold World.finish World.exited
  dsimp only
  rw [List.getElem?_modify_eq, List.getElem?_eq_getElem present]
  rfl

theorem exited_of_grows {serial : Nat} (grows : Grows world next) (ended : world.exited serial = true) :
    next.exited serial = true := by
  unfold World.exited at ended ⊢
  obtain ⟨code, exited⟩ := Option.isSome_iff_exists.mp ended
  obtain ⟨proc, present, exited⟩ := Option.bind_eq_some_iff.mp exited
  obtain ⟨later, present, -, kept⟩ := grows serial proc present
  rw [present, Option.bind_some, kept code exited]
  rfl

theorem code_of_running {serial : Nat} (runs : world.exited serial = false) : world.code serial = stillActive := by
  unfold World.exited at runs
  unfold World.code
  rw [Option.isSome_eq_false_iff, Option.isNone_iff_eq_none] at runs
  rw [runs]
  rfl

/-- A process object leaves no launched process running. -/
theorem leaves_terminateIfRunning (sound : Sound world) (name : Nat) : ¬ (world.terminateIfRunning name).Leaves name := by
  rintro ⟨handle, has, query, runs⟩
  have same : (world.terminateIfRunning name).handle name = world.handle name := by
    obtain equal | ⟨_, -, equal⟩ := terminateIfRunning_cases world name <;> rw [equal]
    rfl
  rw [same] at has
  have before : world.exited handle.serial = false := by
    rw [Bool.eq_false_iff]
    intro ended
    obtain equal | ⟨_, -, equal⟩ := terminateIfRunning_cases world name
    · rw [equal, ended] at runs
      cases runs
    · rw [equal, exited_of_grows (grows_finish world _ 260) ended] at runs
      cases runs
  have ends : world.terminateIfRunning name = world.finish handle.serial 260 := by
    unfold World.terminateIfRunning World.getExitCode
    rw [has]
    dsimp only
    rw [if_pos query, code_of_running before]
    rfl
  rw [ends, exited_finish world handle.serial 260 (sound.serials handle (Sound.handle_mem has))] at runs
  cases runs

theorem dropped_closeHandle : (∀ inst, (.dropped, inst) ∉ (world.closeHandle name).owners.ended) ↔
    (∀ inst, (.dropped, inst) ∉ world.owners.ended) ∧ ¬ world.Leaves name := by
  unfold World.closeHandle
  dsimp only
  constructor
  · intro none
    refine ⟨fun inst old => none inst (Ledger.mem_ended_finish.mpr (.inr old)), fun leaves => ?_⟩
    have ⟨handle, has, _⟩ := leaves
    obtain ⟨inst, held, -⟩ := Option.bind_eq_some_iff.mp has
    exact none inst (Ledger.mem_ended_finish.mpr (.inl ⟨(if_pos leaves).symm, held⟩))
  · rintro ⟨none, stays⟩ inst member
    obtain ⟨way, -⟩ | old := Ledger.mem_ended_finish.mp member
    · rw [if_neg stays] at way
      cases way
    · exact none inst old

/-- What an object loses it loses behind what its destructor does. -/
structure Loses (world middle next : World) (name : Nat) (op : Op) : Prop where
  grows : Grows world middle
  owners : middle.owners = world.owners
  handles : middle.handles = world.handles ∧ next.handles = world.handles
  procs : next.procs = middle.procs
  ended : next.owners.ended = (middle.closeHandle name).owners.ended
  tidy : Tidy world op ↔ ¬ middle.Leaves name

theorem letsGo_of_step (sound : Sound world) (taken : step world op = some next) (lets : op.LetsGo) :
    next.owners.ended = world.owners.ended ∧ Tidy world op ∨ ∃ middle name, Loses world middle next name op := by
  cases op with
  | moveAssign name source =>
    obtain ⟨self, other, -, -, ⟨rfl, rfl⟩ | ⟨distinct, rfl⟩⟩ := moveAssign_some taken
    · exact .inl ⟨rfl, .inl rfl⟩
    · exact .inr ⟨world, name, .refl _, rfl, ⟨rfl, rfl⟩, rfl, rfl, or_iff_right distinct⟩
  | destroy name =>
    obtain ⟨object, entry, rfl⟩ := Option.map_eq_some_iff.mp taken
    have tidy : Tidy world (.destroy name) ↔ object.owning = true ∨ ¬ world.Leaves name :=
      ⟨fun all => all object entry, fun one _ same => Option.some.inj (entry.symm.trans same) ▸ one⟩
    right
    -- a process is terminated first, so its handle is closed behind its end
    by_cases owning : object.owning = true
    · have terminated := terminateIfRunning_cases world name
      refine ⟨world.terminateIfRunning name, name, ?_, ?_, ?_, ?_, ?_, ?_⟩
      · have ended : Effect world (world.terminateIfRunning name) (.terminate name) :=
          effect_finish (terminated.imp_right fun ⟨handle, _, same⟩ => ⟨handle.serial, 260, same⟩)
        exact ended.grows
      · obtain same | ⟨_, -, same⟩ := terminated <;> rw [same]
        rfl
      · rw [if_pos owning]
        obtain same | ⟨_, -, same⟩ := terminated <;> rw [same] <;> exact ⟨rfl, rfl⟩
      · rw [if_pos owning]
        rfl
      · rw [if_pos owning]
        rfl
      · rw [tidy]
        exact iff_of_true (.inl owning) (leaves_terminateIfRunning sound name)
    · refine ⟨world, name, .refl _, rfl, ?_, ?_, ?_, ?_⟩
      · rw [if_neg owning]
        exact ⟨rfl, rfl⟩
      · rw [if_neg owning]
        rfl
      · rw [if_neg owning]
        rfl
      · rw [tidy]
        exact or_iff_right owning
  | _ => exact absurd lets id

theorem dropped_of_step (sound : Sound world) (taken : step world op = some next) :
    (∀ inst, (.dropped, inst) ∉ next.owners.ended) ↔ (∀ inst, (.dropped, inst) ∉ world.owners.ended) ∧ Tidy world op := by
  by_cases lets : op.LetsGo
  · obtain ⟨same, tidy⟩ | ⟨middle, name, loses⟩ := letsGo_of_step sound taken lets
    · rw [same]
      exact (and_iff_left tidy).symm
    · rw [loses.ended, loses.tidy, dropped_closeHandle, loses.owners]
  · rw [(effect_of_step taken).ended lets]
    refine (and_iff_left ?_).symm
    cases op with
    | moveAssign name source => exact absurd trivial lets
    | destroy name => exact absurd trivial lets
    | _ => trivial

/-- Behind a closed handle of a launched process the process has ended. -/
def Honest (world : World) : Prop :=
  ∀ inst handle, (.closed, inst) ∈ world.owners.ended → world.handles[inst]? = some handle → handle.query = true →
    world.exited handle.serial = true

theorem honest_keep {inst : Nat} {handle : Handle} (sound : Sound world) (honest : Honest world) (grows : Grows world next)
    (handles : world.handles <+: next.handles) (member : (.closed, inst) ∈ world.owners.ended)
    (found : next.handles[inst]? = some handle)
    (query : handle.query = true) : next.exited handle.serial = true := by
  have bounded := sound.opened inst (sound.owners.own inst ⟨_, member⟩)
  have before : world.handles[inst]? = some handle := by
    obtain ⟨more, same⟩ := handles
    rwa [← same, List.getElem?_append_left bounded] at found
  exact exited_of_grows grows (honest inst handle member before query)

theorem step_honest : Preserves step (fun _ _ => True) fun world => Sound world ∧ Honest world := by
  rintro world op next ⟨sound, honest⟩ - taken
  have effect := effect_of_step taken
  refine ⟨step_sound world op next sound trivial taken, fun inst handle member found query => ?_⟩
  by_cases lets : op.LetsGo
  · obtain ⟨same, -⟩ | ⟨middle, name, loses⟩ := letsGo_of_step sound taken lets
    · exact honest_keep sound honest effect.grows effect.handles (same ▸ member) found query
    · rw [loses.ended] at member
      obtain ⟨way, held⟩ | old := Ledger.mem_ended_finish.mp member
      · have has : middle.handle name = some handle := by
          unfold World.handle
          rw [held, Option.bind_some, loses.handles.1, ← loses.handles.2]
          exact found
        have stays : ¬ middle.Leaves name := fun leaves => nomatch way.trans (if_pos leaves)
        have ended : middle.exited handle.serial = true := by
          by_contra runs
          exact stays ⟨handle, has, query, Bool.eq_false_iff.mpr runs⟩
        unfold World.exited at ended ⊢
        rw [loses.procs]
        exact ended
      · rw [loses.owners] at old
        exact honest_keep sound honest effect.grows effect.handles old found query
  · rw [effect.ended lets] at member
    exact honest_keep sound honest effect.grows effect.handles member found query

/-- Every handle is with one object or was closed once. None of a launched process that runs is closed exactly if no assignment
replaces one and none goes without a process object. Then every launched process that runs has an object. -/
theorem handle_fate_of_run (self : ProcessId) (final : World) (ops : List Op) (reached : run step (start self) ops = some final) :
    (∀ inst ∈ final.owners.acquired, final.owners.Fate inst) ∧
      ((∀ inst, (.dropped, inst) ∉ final.owners.ended) ↔ Admits step Tidy (start self) ops) ∧
      (Admits step Tidy (start self) ops → ∀ inst ∈ final.owners.acquired, ∀ handle, final.handles[inst]? = some handle →
        handle.query = true →
        final.exited handle.serial = false → ∃ name, final.owners.held name = some inst) := by
  obtain ⟨sound, honest⟩ := run_invariant step_honest ⟨sound_start self, nofun⟩ admits_true reached
  have dropped : (∀ inst, (.dropped, inst) ∉ final.owners.ended) ↔ Admits step Tidy (start self) ops := by
    refine @last_iff_admits_of_sound World Op step Tidy Sound (fun world => ∀ inst, (.dropped, inst) ∉ world.owners.ended)
      step_sound ?_ ?_ (start self) final ops (sound_start self) nofun reached
    · intro world op next sound none taken
      exact (dropped_of_step sound taken).trans (and_iff_right none)
    · intro world op next sound lost taken none
      exact lost ((dropped_of_step sound taken).mp none).1
  refine ⟨fun inst known => sound.owners.fate known, dropped, fun admitted inst known handle found query runs => ?_⟩
  refine (sound.owners.kept inst).mpr ⟨known, ?_⟩
  rintro ⟨way, ended⟩
  cases way with
  | closed =>
    rw [honest inst handle ended found query] at runs
    cases runs
  | dropped => exact dropped.mpr admitted inst ended

/-- A process is moved, detached and left alone, another one ends with its object. -/
def detached : List Op :=
  [.launch 0 ⟨8, by decide⟩, .moveConstruct 1 0, .detach 1 2, .launch 3 ⟨12, by decide⟩, .destroy 3, .exit 1 7, .destroy 2,
    .running 1]

theorem handle_fate_of_run_detached :
    ∃ final, run step (start self) detached = some final ∧ final.owners.ended = [(.closed, 0), (.closed, 1)] ∧
    ∀ inst ∈ final.owners.acquired, final.owners.Fate inst :=
  ⟨_, rfl, rfl, (handle_fate_of_run self _ detached rfl).1⟩

end BoostProcess.V2.Windows.BasicProcess
