import BoostProcess.Library.Custody
import BoostProcess.Library.Transition
import BoostProcess.V2.Process.Kernel

/-! basic_process on POSIX, and programs that use any number of objects.

An operation names the objects it works on. The kernel acts in between: children end,
numbers are reused, and whatever is decided during a call is part of the operation.
-/

set_option autoImplicit false

namespace BoostProcess.V2.Process

/-- `basic_process`. The child it was last attached to is no part of the source. -/
structure BasicProcess where
  handle : Handle := {}
  exitStatus : Int := stillActive
  attached : Option Nat := none

/-- The outcome of a member function. -/
structure Used where
  process : BasicProcess
  sys : Sys
  ec : ErrorCode
  running : Bool := false

/-- The member functions that send one signal. -/
inductive Request where
  | interrupt
  | requestExit
  | suspend
  | resume
  deriving DecidableEq

def Request.send : Request → Handle → Sys → ErrorCode → Answer → Sys × ErrorCode
  | .interrupt => Handle.interrupt
  | .requestExit => Handle.requestExit
  | .suspend => Handle.suspend
  | .resume => Handle.resume

/-- The bits of a `cancellation_type`. -/
structure CancellationType where
  total : Bool
  part : Bool
  terminal : Bool
  deriving DecidableEq

namespace BasicProcess

/-- `running(ec)`. The overload that throws starts from a clear error_code. -/
def running (process : BasicProcess) (sys : Sys) (ec : ErrorCode) : Used :=
  if processIsRunning process.exitStatus = false then ⟨process, sys, ec, false⟩
  else
    -- `native_exit_code_type exit_code{};`
    let result := process.handle.running 0 sys ec
    if result.ec.failed = false ∧ result.running = false then
      ⟨{ process with exitStatus := result.exitStatus }, result.sys, result.ec, false⟩
    else ⟨process, result.sys, result.ec, result.running⟩

def wait (process : BasicProcess) (sys : Sys) (ec : ErrorCode) (answer : Answer) : Used :=
  -- waits only for a process that it has just seen running
  let polled := process.running sys ec
  if polled.running then
    let result := polled.process.handle.wait polled.process.exitStatus polled.sys polled.ec answer
    ⟨{ polled.process with exitStatus := result.exitStatus }, result.sys, result.ec, true⟩
  else polled

def terminate (process : BasicProcess) (sys : Sys) (ec : ErrorCode) (answer : Answer) : Used :=
  let result := process.handle.terminate process.exitStatus sys ec answer
  ⟨{ process with exitStatus := result.exitStatus }, result.sys, result.ec, false⟩

def request (request : Request) (process : BasicProcess) (sys : Sys) (ec : ErrorCode) (answer : Answer) : Used :=
  let sent := request.send process.handle sys ec answer
  ⟨process, sent.1, sent.2, false⟩

def interrupt := request .interrupt

def requestExit := request .requestExit

def suspend := request .suspend

def resume := request .resume

def exitCode (process : BasicProcess) : Int := evaluateExitCode process.exitStatus

/-- `execute_op::cancel`: the cancellation of async_execute. -/
def cancel (tp : CancellationType) (process : BasicProcess) (sys : Sys) (answer : Answer) : Used :=
  if tp.total then process.interrupt sys .clear answer
  else if tp.part then process.requestExit sys .clear answer
  else if tp.terminal then process.terminate sys .clear answer
  else ⟨process, sys, .clear, false⟩

/-- What a move leaves behind: the number is gone, the exit status a copy. -/
def released (process : BasicProcess) : BasicProcess := { process with handle := {} }

end BasicProcess

/-- An operation of async_wait: a reference to the object's exit status and a copy of the
number that its handle had. -/
structure Waiter where
  object : Nat
  handle : Handle

structure World where
  sys : Sys
  objects : Nat → Option BasicProcess := fun _ => none
  waiters : Nat → Option Waiter := fun _ => none
  /-- The handles that detach returned. -/
  handles : Nat → Option Handle := fun _ => none
  launched : List Nat := []
  /-- Children that detach handed out. -/
  detached : List Nat := []
  /-- Children whose owner was destroyed. -/
  orphaned : List Nat := []

namespace World

def set (world : World) (name : Nat) (process : Option BasicProcess) : World :=
  { world with objects := Function.update world.objects name process }

/-- The world after system calls. -/
def withSys (world : World) (sys : Sys) : World := { world with sys := sys }

def create (world : World) (name : Nat) (process : BasicProcess) : Option World :=
  match world.objects name with
  | none => some (world.set name (some process))
  | some _ => none

def use (world : World) (name : Nat) (function : BasicProcess → Sys → Used) : Option World :=
  (world.objects name).map fun process =>
    let used := function process world.sys
    (world.set name (some used.process)).withSys used.sys

/-- The exit status that a waiter refers to. -/
def exitStatus (world : World) (name : Nat) : Int :=
  ((world.objects name).map BasicProcess.exitStatus).getD stillActive

/-- One poll by a waiter. The handle of the fd flavour waits for the child when the pidfd is
ready; everybody else polls. -/
def poll (world : World) (waiter : Waiter) (blocking : Bool) (answer : Answer) : World :=
  if waiter.handle.pid ≤ 0 ∨ processIsRunning (world.exitStatus waiter.object) = false then world
  else
    let waited :=
      if blocking then
        world.sys.waitFor waiter.handle.pid waiter.handle.child answer.status (0 < answer.interrupts)
      else world.sys.waitNoHang waiter.handle.pid waiter.handle.child
    match waited.2 with
    | .reaped status =>
      (world.set waiter.object ((world.objects waiter.object).map fun process =>
        { process with exitStatus := status })).withSys waited.1
    | _ => world.withSys waited.1

end World

inductive Op where
  | construct (name : Nat)
  | attach (name : Nat) (pid : Int)
  /-- The launcher returned a pid and the object is made for it. Without a pidfd the
  constructor of the fd flavour throws. -/
  | launch (name : Nat) (pid : Int) (opened : Bool)
  | running (name : Nat) (ec : ErrorCode)
  | wait (name : Nat) (ec : ErrorCode) (answer : Answer)
  | terminate (name : Nat) (ec : ErrorCode) (answer : Answer)
  | request (name : Nat) (request : Request) (ec : ErrorCode) (answer : Answer)
  | cancel (name : Nat) (tp : CancellationType) (answer : Answer)
  | moveConstruct (name source : Nat)
  | moveAssign (name source : Nat)
  | detach (name target : Nat)
  | moveHandle (target source : Nat)
  | dropHandle (name : Nat)
  | destroy (name : Nat) (answer : Answer)
  | asyncWait (name waiter : Nat)
  | poll (waiter : Nat) (blocking : Bool) (answer : Answer)
  | complete (waiter : Nat)
  /-- A child ends. -/
  | exit (pid : Int) (status : ExitStatus)
  /-- A process that the library did not launch. -/
  | appear (pid : Int) (own : Bool)
  /-- A process goes without our waiting for it. -/
  | vanish (pid : Int)

def step (world : World) : Op → Option World
  | .construct name => world.create name {}
  | .attach name pid =>
    world.create name ⟨world.sys.handleFor pid, stillActive, (world.sys.handleFor pid).held⟩
  | .launch name pid opened =>
    if world.sys.Free pid then
      let spawned := { world with
        sys := world.sys.spawn pid true
        launched := world.sys.births :: world.launched }
      if opened then
        spawned.create name ⟨⟨pid, some world.sys.births⟩, stillActive, some world.sys.births⟩
      -- the child runs on without an object
      else some spawned
    else none
  | .running name ec => world.use name fun process sys => process.running sys ec
  | .wait name ec answer => world.use name fun process sys => process.wait sys ec answer
  | .terminate name ec answer => world.use name fun process sys => process.terminate sys ec answer
  | .request name request ec answer => world.use name fun process sys => process.request request sys ec answer
  | .cancel name tp answer => world.use name fun process sys => process.cancel tp sys answer
  | .moveConstruct name source => do
    let lhs ← world.objects source
    (← world.create name lhs).set source (some lhs.released)
  | .moveAssign name source => do
    let _ ← world.objects name
    let lhs ← world.objects source
    -- whatever the target held is overwritten
    some ((world.set name (some lhs)).set source (some lhs.released))
  | .detach name target => do
    let process ← world.objects name
    match world.handles target with
    | some _ => none
    | none =>
      let moved := world.set name (some process.released)
      some { moved with
        handles := Function.update world.handles target (some process.handle)
        detached := process.handle.held.toList ++ world.detached }
  | .moveHandle target source => do
    let handle ← world.handles source
    some { world with
      handles := Function.update (Function.update world.handles target (some handle)) source (some {}) }
  | .dropHandle name =>
    -- a handle has no destructor of its own
    (world.handles name).map fun _ => { world with handles := Function.update world.handles name none }
  | .destroy name answer => do
    let process ← world.objects name
    let gone := (world.set name none).withSys (process.handle.terminateIfRunning world.sys answer)
    some { gone with orphaned := process.handle.held.toList ++ world.orphaned }
  | .asyncWait name waiter => do
    let process ← world.objects name
    -- a status that is stored completes the operation at once
    if processIsRunning process.exitStatus then
      some { world with waiters := Function.update world.waiters waiter (some ⟨name, process.handle⟩) }
    else some world
  | .poll waiter blocking answer => (world.waiters waiter).map fun entry => world.poll entry blocking answer
  | .complete waiter =>
    (world.waiters waiter).map fun _ => { world with waiters := Function.update world.waiters waiter none }
  | .exit pid status =>
    match world.sys.procs pid with
    | some ⟨child, true, none⟩ =>
      some (world.withSys (world.sys.ended pid child status))
    | _ => none
  | .appear pid own =>
    if world.sys.Free pid then some (world.withSys (world.sys.spawn pid own)) else none
  | .vanish pid =>
    (world.sys.procs pid).map fun _ =>
      world.withSys (world.sys.remove pid)

/-- Before the first object. -/
structure World.Initial (world : World) : Prop where
  consistent : world.sys.Consistent
  log : world.sys.log = []
  objects : ∀ name, world.objects name = none
  waiters : ∀ name, world.waiters name = none
  handles : ∀ name, world.handles name = none
  launched : world.launched = []
  detached : world.detached = []
  orphaned : world.orphaned = []

/-- A kernel without a process. -/
def World.bare : World := { sys := { procs := fun _ => none, births := 0 } }

theorem World.bare_initial : World.bare.Initial where
  consistent := by
    have none_collected (child : Nat) : ¬ World.bare.sys.Collected child := by
      simp [Sys.Collected, World.bare]
    refine ⟨?_, ?_, ?_, ?_⟩
    · intro pid proc there
      cases there
    · intro first second left right there
      cases there
    · intro child collected
      exact absurd collected (none_collected child)
    · intro child collected
      exact absurd collected (none_collected child)
  log := rfl
  objects _ := rfl
  waiters _ := rfl
  handles _ := rfl
  launched := rfl
  detached := rfl
  orphaned := rfl

/-! ## What a member function can do -/

/-- The exit status changes exactly when a status is collected. -/
def Used.Reports (used : Used) (process : BasicProcess) (sys : Sys) : Prop :=
  ∃ collected, Effect process.handle sys used.sys collected ∧
    used.process = { process with exitStatus := (collected.map ExitStatus.status).getD process.exitStatus }

namespace BasicProcess

/-- Nothing is known of a child, and nothing tells `running` so. -/
def Vacant (process : BasicProcess) (ec : ErrorCode) : Prop :=
  process.handle.pid ≤ 0 ∧ processIsRunning process.exitStatus = true ∧ ec.failed = false

instance (process : BasicProcess) (ec : ErrorCode) : Decidable (process.Vacant ec) :=
  inferInstanceAs (Decidable (_ ∧ _ ∧ _))

end BasicProcess

/-- `running` and `wait` use the number only while no status is stored. -/
def Used.Polls (used : Used) (process : BasicProcess) (sys : Sys) (ec : ErrorCode) : Prop :=
  processIsRunning process.exitStatus = false ∧ used.process = process ∧ used.sys = sys ∨
    process.Vacant ec ∧ used.process = { process with exitStatus := 0 } ∧ used.sys = sys ∨
    processIsRunning process.exitStatus = true ∧ used.Reports process sys

section
variable {process : BasicProcess} {sys : Sys}

theorem Result.Reports.used {result : Result} {ec : ErrorCode} {running : Bool}
    (reports : result.Reports process.handle sys process.exitStatus) :
    Used.Reports ⟨{ process with exitStatus := result.exitStatus }, result.sys, ec, running⟩ process sys := by
  obtain ⟨collected, effect, same⟩ := reports
  exact ⟨collected, effect, by simp [same]⟩

theorem running_polls (ec : ErrorCode) : (process.running sys ec).Polls process sys ec := by
  unfold BasicProcess.running
  split
  · rename_i stored
    exact .inl ⟨stored, rfl, rfl⟩
  · rename_i active
    rw [Bool.not_eq_false] at active
    dsimp only
    -- no number, a collected status, or something that `running` reports
    rcases running_cases process.handle sys 0 ec with
      ⟨empty, same⟩ | ⟨status, effect, same⟩ | ⟨effect, kept⟩
    · rw [same]
      split
      · rename_i met
        exact .inr (.inl ⟨⟨empty, active, met.1⟩, rfl, rfl⟩)
      · exact .inr (.inr ⟨active, none, .refl, rfl⟩)
    · rw [same]
      exact .inr (.inr ⟨active, some status, effect, rfl⟩)
    · rw [if_neg]
      · exact .inr (.inr ⟨active, none, effect, rfl⟩)
      · rintro ⟨clear, ended⟩
        rcases kept with runs | failed
        · rw [runs] at ended
          cases ended
        · rw [failed] at clear
          cases clear

/-- While the process runs, `running` only looks. -/
theorem running_true {ec : ErrorCode} (runs : (process.running sys ec).running = true) :
    processIsRunning process.exitStatus = true ∧ (process.running sys ec).process = process ∧
      Effect process.handle sys (process.running sys ec).sys none := by
  unfold BasicProcess.running at runs ⊢
  split at runs
  · cases runs
  · rename_i active
    rw [if_neg active]
    rw [Bool.not_eq_false] at active
    dsimp only at runs ⊢
    split at runs
    · cases runs
    · rename_i kept
      rw [if_neg kept]
      refine ⟨active, rfl, ?_⟩
      rcases running_cases process.handle sys 0 ec with
        ⟨-, same⟩ | ⟨status, -, same⟩ | ⟨effect, -⟩
      · rw [same] at runs
        cases runs
      · rw [same] at runs
        cases runs
      · exact effect

theorem wait_polls (ec : ErrorCode) (answer : Answer) : (process.wait sys ec answer).Polls process sys ec := by
  unfold BasicProcess.wait
  dsimp only
  split
  · rename_i runs
    obtain ⟨active, same, effect⟩ := running_true runs
    refine .inr (.inr ⟨active, ?_⟩)
    rw [same]
    exact (Result.Reports.after effect (wait_reports process.exitStatus _ answer)).used
  · exact running_polls ec

theorem terminate_used (ec : ErrorCode) (answer : Answer) : (process.terminate sys ec answer).Reports process sys :=
  (terminate_reports process.exitStatus ec answer).used

theorem request_used (request : Request) (ec : ErrorCode) (answer : Answer) :
    (process.request request sys ec answer).Reports process sys := by
  refine ⟨none, ?_, rfl⟩
  cases request with
  | interrupt => exact send_effect .sigint ec answer
  | requestExit => exact send_effect .sigterm ec answer
  | suspend => exact send_effect .sigstop ec answer
  | resume => exact send_effect .sigcont ec answer

theorem cancel_used (tp : CancellationType) (answer : Answer) : (process.cancel tp sys answer).Reports process sys := by
  unfold BasicProcess.cancel
  split
  · exact request_used .interrupt .clear answer
  · split
    · exact request_used .requestExit .clear answer
    · split
      · exact terminate_used .clear answer
      · exact ⟨none, .refl, rfl⟩

theorem Used.Reports.handle {used : Used} (reports : used.Reports process sys) :
    used.process.handle = process.handle := by
  obtain ⟨collected, -, same⟩ := reports
  rw [same]

theorem Used.Polls.handle {used : Used} {ec : ErrorCode} (polls : used.Polls process sys ec) :
    used.process.handle = process.handle := by
  rcases polls with ⟨-, same, -⟩ | ⟨-, same, -⟩ | ⟨-, reports⟩
  · rw [same]
  · rw [same]
  · exact reports.handle

end

section
variable {world next : World} {name source : Nat}

theorem use_some {function : BasicProcess → Sys → Used} (taken : world.use name function = some next) :
    ∃ process, world.objects name = some process ∧
      next = (world.set name (some (function process world.sys).process)).withSys (function process world.sys).sys := by
  obtain ⟨process, entry, rfl⟩ := Option.map_eq_some_iff.mp taken
  exact ⟨process, entry, rfl⟩

theorem create_some {process : BasicProcess} (created : world.create name process = some next) :
    world.objects name = none ∧ next = world.set name (some process) := by
  unfold World.create at created
  split at created
  · rename_i unused
    exact ⟨unused, (Option.some.inj created).symm⟩
  · cases created

/-! ### One inversion for each operation -/

/-- The kernel and the accounts after the fork of a launch. -/
def World.forked (world : World) (pid : Int) : World :=
  { world with sys := world.sys.spawn pid true, launched := world.sys.births :: world.launched }

theorem launch_some {pid : Int} {opened : Bool} (taken : step world (.launch name pid opened) = some next) :
    world.sys.Free pid ∧
      (opened = true ∧ world.objects name = none ∧
          next = (world.forked pid).set name (some ⟨⟨pid, some world.sys.births⟩, stillActive, some world.sys.births⟩) ∨
        opened = false ∧ next = world.forked pid) := by
  simp only [step] at taken
  split at taken
  · rename_i free
    refine ⟨free, ?_⟩
    cases opened with
    | true =>
      obtain ⟨unused, same⟩ := create_some taken
      exact .inl ⟨rfl, unused, same⟩
    | false =>
      cases taken
      exact .inr ⟨rfl, rfl⟩
  · cases taken

theorem moveConstruct_some (taken : step world (.moveConstruct name source) = some next) :
    world.objects name = none ∧ ∃ lhs, world.objects source = some lhs ∧
      next = (world.set name (some lhs)).set source (some lhs.released) := by
  obtain ⟨lhs, entry, taken⟩ := Option.bind_eq_some_iff.mp taken
  obtain ⟨created, made, taken⟩ := Option.bind_eq_some_iff.mp taken
  obtain ⟨unused, rfl⟩ := create_some made
  cases taken
  exact ⟨unused, lhs, entry, rfl⟩

theorem moveAssign_some (taken : step world (.moveAssign name source) = some next) :
    ∃ lhs, world.objects source = some lhs ∧
      next = (world.set name (some lhs)).set source (some lhs.released) := by
  obtain ⟨_, -, taken⟩ := Option.bind_eq_some_iff.mp taken
  obtain ⟨lhs, entry, taken⟩ := Option.bind_eq_some_iff.mp taken
  cases taken
  exact ⟨lhs, entry, rfl⟩

theorem detach_some {target : Nat} (taken : step world (.detach name target) = some next) :
    ∃ process, world.objects name = some process ∧
      next = { world.set name (some process.released) with
        handles := Function.update world.handles target (some process.handle)
        detached := process.handle.held.toList ++ world.detached } := by
  obtain ⟨process, entry, taken⟩ := Option.bind_eq_some_iff.mp taken
  split at taken
  · cases taken
  · cases taken
    exact ⟨process, entry, rfl⟩

theorem destroy_some {answer : Answer} (taken : step world (.destroy name answer) = some next) :
    ∃ process, world.objects name = some process ∧
      next = { (world.set name none).withSys (process.handle.terminateIfRunning world.sys answer) with
        orphaned := process.handle.held.toList ++ world.orphaned } := by
  obtain ⟨process, entry, taken⟩ := Option.bind_eq_some_iff.mp taken
  cases taken
  exact ⟨process, entry, rfl⟩

theorem asyncWait_some {waiter : Nat} (taken : step world (.asyncWait name waiter) = some next) :
    ∃ waiters, next = { world with waiters := waiters } := by
  obtain ⟨process, -, taken⟩ := Option.bind_eq_some_iff.mp taken
  split at taken
  · cases taken
    exact ⟨_, rfl⟩
  · cases taken
    exact ⟨world.waiters, rfl⟩

theorem exit_some {pid : Int} {status : ExitStatus} (taken : step world (.exit pid status) = some next) :
    ∃ child, world.sys.procs pid = some ⟨child, true, none⟩ ∧ next = world.withSys (world.sys.ended pid child status) := by
  simp only [step] at taken
  split at taken
  · rename_i child there
    cases taken
    exact ⟨child, there, rfl⟩
  · cases taken

theorem appear_some {pid : Int} {own : Bool} (taken : step world (.appear pid own) = some next) :
    world.sys.Free pid ∧ next = world.withSys (world.sys.spawn pid own) := by
  simp only [step] at taken
  split at taken
  · rename_i free
    cases taken
    exact ⟨free, rfl⟩
  · cases taken

theorem poll_cases (waiter : Waiter) (blocking : Bool) (answer : Answer) :
    world.poll waiter blocking answer = world ∨
      processIsRunning (world.exitStatus waiter.object) = true ∧ 0 < waiter.handle.pid ∧
        ∃ final collected, Effect waiter.handle world.sys final collected ∧
          world.poll waiter blocking answer =
            (world.set waiter.object ((world.objects waiter.object).map fun process =>
              { process with exitStatus := (collected.map ExitStatus.status).getD process.exitStatus })).withSys final := by
  unfold World.poll
  split
  · exact .inl rfl
  · rename_i polls
    right
    have valid : 0 < waiter.handle.pid := by
      by_contra invalid
      exact polls (.inl (not_lt.mp invalid))
    have active : processIsRunning (world.exitStatus waiter.object) = true := by
      by_contra stored
      exact polls (.inr (Bool.not_eq_true _ ▸ stored))
    refine ⟨active, valid, ?_⟩
    -- either way it is one call to waitpid with the captured number
    have waited : Waited waiter.handle world.sys
        (if blocking then
          world.sys.waitFor waiter.handle.pid waiter.handle.child answer.status (0 < answer.interrupts)
        else world.sys.waitNoHang waiter.handle.pid waiter.handle.child) := by
      split
      · exact waitFor_waited world.sys valid _ _
      · exact waitNoHang_waited world.sys valid
    dsimp only
    generalize (if blocking then
        world.sys.waitFor waiter.handle.pid waiter.handle.child answer.status (0 < answer.interrupts)
      else world.sys.waitNoHang waiter.handle.pid waiter.handle.child) = outcome at waited ⊢
    cases waited with
    | failed final errno effect => exact ⟨final, none, effect, by simp [World.set, World.withSys]⟩
    | running final effect => exact ⟨final, none, effect, by simp [World.set, World.withSys]⟩
    | reaped final status effect => exact ⟨final, some status, effect, rfl⟩

end

/-! ## Who holds what -/

namespace World

variable {Resource : Type} {part : Handle → Option Resource} {world : World} {name source : Nat}
  {process lhs : BasicProcess}

def custody (part : Handle → Option Resource) (world : World) (name : Nat) : Option Resource :=
  (world.objects name).bind fun process => part process.handle

def All (property : BasicProcess → Prop) (world : World) : Prop :=
  ∀ name process, world.objects name = some process → property process

theorem All.set {property : BasicProcess → Prop} (all : world.All property) {value : Option BasicProcess}
    (met : ∀ process, value = some process → property process) : (world.set name value).All property := by
  intro other process entry
  simp only [World.set, Function.update_apply] at entry
  split at entry
  · exact met process entry
  · exact all other process entry

/-- A move copies an object and leaves the source without its number. -/
theorem All.move {property : BasicProcess → Prop} (all : world.All property) (name : Nat)
    (entry : world.objects source = some lhs) (released : property lhs.released) :
    ((world.set name (some lhs)).set source (some lhs.released)).All property := by
  have copied : (world.set name (some lhs)).All property := by
    apply all.set
    intro process same
    cases same
    exact all source lhs entry
  apply copied.set
  intro process same
  cases same
  exact released

@[simp] theorem withSys_set (sys : Sys) (value : Option BasicProcess) :
    (world.withSys sys).set name value = (world.set name value).withSys sys := rfl

@[simp] theorem set_set (first second : Option BasicProcess) :
    (world.set name first).set name second = world.set name second := by
  simp [set]

theorem custody_set (value : Option BasicProcess) :
    (world.set name value).custody part =
      Function.update (world.custody part) name (value.bind fun process => part process.handle) := by
  funext other
  unfold custody set
  by_cases same : other = name
  · subst same
    simp only [Function.update_self]
  · simp only [Function.update_of_ne same]

/-- An operation on an object leaves it the handle. -/
theorem custody_keep (part : Handle → Option Resource) (entry : world.objects name = some process) {kept : BasicProcess}
    (same : kept.handle = process.handle) : (world.set name (some kept)).custody part = world.custody part := by
  have unchanged : (some kept).bind (fun process => part process.handle) = world.custody part name := by
    simp [custody, entry, same]
  rw [custody_set, unchanged, Function.update_eq_self]

theorem custody_release (empty : part {} = none) :
    (world.set name (some process.released)).custody part = Custody.release (world.custody part) name := by
  have gone : (some process.released).bind (fun process => part process.handle) = none := empty
  rw [custody_set, gone]
  rfl

theorem custody_move (name : Nat) (entry : world.objects source = some lhs) (empty : part {} = none) :
    ((world.set name (some lhs)).set source (some lhs.released)).custody part =
      Custody.transfer (world.custody part) source name := by
  have held : (some lhs).bind (fun process => part process.handle) = world.custody part source := by
    simp [custody, entry]
  rw [custody_release empty, custody_set, held]
  rfl

end World

/-- The child of an object is there, or its status was collected. -/
def Located (sys : Sys) (process : BasicProcess) : Prop :=
  0 < process.handle.pid → Live sys process.handle ∨
    ∃ child, process.handle.child = some child ∧ sys.Collected child

/-- No object holds a child that is yet to be born. -/
theorem World.held_bounded {world : World} {child : Nat} (consistent : world.sys.Consistent)
    (located : world.All (Located world.sys)) (held : Custody.Held (world.custody Handle.held) child) :
    child < world.sys.births := by
  obtain ⟨name, entry⟩ := held
  obtain ⟨process, found, held⟩ := Option.bind_eq_some_iff.mp entry
  obtain ⟨valid, meant⟩ := Handle.held_some.mp held
  rcases located name process found valid with ⟨other, exited, same, there⟩ | ⟨other, same, gone⟩
  · rw [meant] at same
    cases same
    exact consistent.bounded _ _ there
  · rw [meant] at same
    cases same
    exact consistent.collectedBounded child gone

end BoostProcess.V2.Process
