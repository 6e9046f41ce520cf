import BoostProcess.Library.Ledger
import BoostProcess.V1.Child

/-! child objects on POSIX and the children of this process behind them.

An object has a number, a pointer to the status that an exit handler may share, and two flags. Others
may reap a child, and then a launch can use its number again. No signal is sent without a waitpid before it.
-/

set_option autoImplicit false

namespace BoostProcess.V1.Posix.ChildObjects

open BoostProcess.V2 (Errno ErrorCode processIsRunning stillActive)
open Transition

/-- A child of this process that has not been reaped. -/
structure Proc where
  pid : Int
  serial : Nat
  exited : Option Int
  deriving DecidableEq, Repr

/-- `child`, with the flag that only its destructor looks at. -/
structure ChildObject extends Child where
  attached : Bool := true
  /-- `_exit_status` is not null. -/
  shares : Bool := true
  deriving DecidableEq

/-- How an object lets its child go. -/
inductive Way where
  | reaped
  | dropped
  deriving DecidableEq, Repr

structure World where
  procs : List Proc := []
  born : Nat := 0
  /-- The statuses that waitpid has reported, to anyone. -/
  reports : List (Nat × Int) := []
  /-- For every signal the child of the object and that which has the number. -/
  kills : List (Option Nat × Option Nat) := []
  /-- A null `_exit_status` has been read. -/
  nullRead : Bool := false
  objects : Nat → Option ChildObject := fun _ => none
  owners : Ledger Nat Nat Way := Ledger.empty

namespace ChildObject

/-- `child()` -/
def empty : ChildObject := { pid := -1, exitStatus := stillActive, terminated := false }

/-- `child(child_handle(pid), exit_status)` -/
def start (pid : Int) : ChildObject := { Child.start pid with }

/-- What a move leaves behind. -/
def released (object : ChildObject) : ChildObject := { object with pid := -1, attached := false, shares := false }

/-- `_exited()` reads through a null pointer. -/
def ReadsNull (object : ChildObject) : Prop := object.terminated = false ∧ object.shares = false

instance (object : ChildObject) : Decidable object.ReadsNull := inferInstanceAs (Decidable (_ ∧ _))

end ChildObject

namespace World

def find (world : World) (pid : Int) : Option Proc := world.procs.find? fun proc => proc.pid = pid

def set (world : World) (name : Nat) (object : Option ChildObject) : World :=
  { world with objects := Function.update world.objects name object }

/-- The child is gone and its status known. -/
def reap (world : World) (proc : Proc) (status : Int) : World :=
  { world with procs := world.procs.erase proc, reports := (proc.serial, status) :: world.reports }

/-- The child with the number has ended, with the status unless it had before. -/
def mark (world : World) (pid status : Int) : World :=
  { world with procs := world.procs.map fun proc =>
      if proc.pid = pid then { proc with exited := some (proc.exited.getD status) } else proc }

/-- `waitpid(pid, &status, WNOHANG)` -/
def waitNoHang (world : World) (pid : Int) : World × WaitPid :=
  match world.find pid with
  | none => (world, .failed .ECHILD)
  | some proc =>
    match proc.exited with
    | none => (world, .unchanged)
    | some status => (world.reap proc status, .changed status)

/-- The waitpid in running, if it gets there. -/
def ask (world : World) (object : ChildObject) : World × WaitPid :=
  if object.Asks then world.waitNoHang object.pid else (world, .unchanged)

/-- A member function returns what it leaves of the object beside the rest. -/
def running (world : World) (object : ChildObject) : World × ChildObject × Bool :=
  let (asked, result) := world.ask object
  let (res, _, child) := object.toChild.running result
  (asked, { object with toChild := child }, res)

/-- `::kill(p.pid, SIGKILL)` and the waitpid behind it, which a signal can interrupt. -/
def kill (world : World) (name : Nat) (pid : Int) (interrupted : Bool) : World :=
  match world.find pid with
  | none => { world with kills := (world.owners.held name, none) :: world.kills }
  | some proc =>
    let hit := { world with kills := (world.owners.held name, some proc.serial) :: world.kills }
    if interrupted then hit.mark pid 9 else hit.reap proc (proc.exited.getD 9)

def terminate (world : World) (name : Nat) (object : ChildObject) (interrupted : Bool) : World × ChildObject :=
  let (asked, result) := world.ask object
  let killed := if (object.toChild.running result).1 then asked.kill name object.pid interrupted else asked
  let failed := if (asked.find object.pid).isNone then some .ESRCH else none
  let reap := if interrupted then .failed .EINTR else .changed 9
  (killed, { object with toChild := (object.toChild.terminate .clear result failed reap).2 })

/-- The loop of waitpid, behind which the child has ended, with the status if it was running. -/
def wait (world : World) (object : ChildObject) (status : Int) : World × ChildObject :=
  if object.Asks then
    match world.find object.pid with
    | none => (world, object)
    | some proc =>
      let ended := proc.exited.getD status
      (world.reap proc ended, { object with exitStatus := ended })
  else (world, object)

/-- `if (_attached && !_exited() && running(ec)) terminate(ec);` -/
def destructor (world : World) (name : Nat) (object : ChildObject) (interrupted : Bool) : World :=
  if object.attached ∧ object.exited = false then
    let (asked, after, res) := world.running object
    if res then (asked.terminate name after interrupted).1 else asked
  else world

/-- The destructor sees the child end: it reaps one that has ended, and kills and reaps one that runs. -/
def Ends (world : World) (object : ChildObject) (interrupted : Bool) : Prop :=
  object.attached = true ∧ object.exited = false ∧
    (interrupted = true → ∀ proc, world.find object.pid = some proc → proc.exited ≠ none)

/-- The child of an object, if it still has to be reaped. -/
def unreaped (world : World) (name : Nat) : Bool :=
  (world.owners.held name).any fun serial => serial ∈ world.procs.map Proc.serial

/-- The object has no number any more. -/
def letGo (world : World) (name : Nat) : World :=
  { world with owners := world.owners.finish name (if world.unreaped name then .dropped else .reaped) }

def handOver (world : World) (name source : Nat) (lhs : ChildObject) : World :=
  ({ world with owners := world.owners.give source name }.set name (some lhs)).set source (some lhs.released)

def reads (world : World) (null : Bool) : World := { world with nullRead := world.nullRead || null }

end World

inductive Op where
  | construct (name : Nat)
  | launch (name : Nat) (pid : Int)
  | moveConstruct (name source : Nat)
  | moveAssign (name source : Nat)
  | detach (name : Nat)
  | running (name : Nat)
  | terminate (name : Nat) (interrupted : Bool)
  | wait (name : Nat) (status : Int)
  /-- `exit_code` and `native_exit_code` -/
  | exitCode (name : Nat)
  | destroy (name : Nat) (interrupted : Bool)
  | exit (pid status : Int)
  /-- Somebody else reaps the child: a group, an exit handler. -/
  | steal (pid : Int)
  /-- The exit handler of the child of an object stores its status. -/
  | store (name : Nat) (status : Int)
  deriving DecidableEq, Repr

def step (world : World) : Op → Option World
  | .construct name => if world.objects name = none then some (world.set name (some .empty)) else none
  | .launch name pid =>
    if world.objects name = none ∧ 0 < pid ∧ world.find pid = none then
      some ({ world with
        procs := ⟨pid, world.born, none⟩ :: world.procs
        born := world.born + 1
        owners := world.owners.acquire name world.born }.set name (some (.start pid)))
    else none
  | .moveConstruct name source =>
    match world.objects name, world.objects source with
    | none, some lhs =>
      some (world.handOver name source lhs)
    | _, _ => none
  | .moveAssign name source =>
    match world.objects name, world.objects source with
    | some _, some lhs =>
      -- a shared_ptr that is moved to itself keeps what it has
      if name = source then some ((world.letGo name).set name (some { lhs with pid := -1, attached := false }))
      else some ((world.letGo name).handOver name source lhs)
    | _, _ => none
  | .detach name => (world.objects name).map fun object => world.set name (some { object with attached := false })
  | .running name =>
    -- `valid() && !_exited()`
    (world.objects name).map fun object =>
      let (next, after, _) := world.running object
      (next.set name (some after)).reads (object.valid && decide object.ReadsNull)
  | .terminate name interrupted =>
    (world.objects name).map fun object =>
      let (next, after) := world.terminate name object interrupted
      (next.set name (some after)).reads (object.valid && decide object.ReadsNull)
  | .wait name status =>
    -- `!_exited() && valid()`
    if processIsRunning status then none
    else (world.objects name).map fun object =>
      let (next, after) := world.wait object status
      (next.set name (some after)).reads (decide object.ReadsNull)
  | .exitCode name => (world.objects name).map fun object => world.reads (!object.shares)
  | .destroy name interrupted =>
    (world.objects name).map fun object =>
      (((world.destructor name object interrupted).letGo name).set name none).reads
        (object.attached && decide object.ReadsNull)
  | .exit pid status =>
    if processIsRunning status then none
    else (world.find pid).bind fun proc => if proc.exited = none then some (world.mark pid status) else none
  | .steal pid => (world.find pid).bind fun proc => proc.exited.map fun status => world.reap proc status
  | .store name status =>
    (world.objects name).bind fun object =>
      (world.owners.held name).bind fun serial =>
        if (serial, status) ∈ world.reports then some (world.set name (some { object with exitStatus := status })) else none

/-! ## What the calls do to the children -/

/-- The numbers of the children that have not been reaped. -/
def World.keys (world : World) : List (Int × Nat) := world.procs.map fun proc => (proc.pid, proc.serial)

def World.serials (world : World) : List Nat := world.keys.map Prod.snd

variable {world next final : World} {name source : Nat} {object after : ChildObject} {proc : Proc} {pid status : Int}
  {serial : Nat}

namespace World

theorem find_some (found : world.find pid = some proc) : proc ∈ world.procs ∧ proc.pid = pid :=
  ⟨List.mem_of_find?_eq_some found, by simpa using List.find?_some found⟩

theorem key_mem (present : proc ∈ world.procs) : (proc.pid, proc.serial) ∈ world.keys :=
  List.mem_map.mpr ⟨proc, present, rfl⟩

theorem find_none (absent : world.find pid = none) {key : Int × Nat} (member : key ∈ world.keys) : key.1 ≠ pid := by
  obtain ⟨proc, present, rfl⟩ := List.mem_map.mp member
  have other := List.find?_eq_none.mp absent proc present
  simpa using other

theorem serial_mem (present : proc ∈ world.procs) : proc.serial ∈ world.serials := List.mem_map_of_mem (key_mem present)

theorem keys_mark (world : World) (pid status : Int) : World.keys (world.mark pid status) = world.keys := by
  unfold keys mark
  rw [List.map_map]
  apply List.map_congr_left
  intro proc present
  dsimp only [Function.comp_apply]
  split <;> rfl

theorem serials_reap (present : proc ∈ world.procs) :
    (world.serials).Perm (proc.serial :: World.serials (world.reap proc status)) := by
  unfold serials keys
  rw [List.map_map, List.map_map]
  exact (List.perm_cons_erase present).map _

end World

/-- No status that has been collected or will be is that of a child that runs. -/
structure Kernel (world : World) : Prop where
  pids : ((world.keys).map Prod.fst).Nodup
  serials : (world.serials).Nodup
  bounded : ∀ key ∈ world.keys, 0 < key.1 ∧ key.2 < world.born
  exits : ∀ proc ∈ world.procs, ∀ status, proc.exited = some status → processIsRunning status = false
  reports : ∀ report ∈ world.reports, report.1 < world.born ∧ report.1 ∉ world.serials ∧ processIsRunning report.2 = false

/-- Children end and are reaped, nothing else. -/
structure Reduces (world next : World) : Prop where
  kernel : Kernel next
  keys : (next.keys).Sublist (world.keys)
  born : next.born = world.born
  owners : next.owners = world.owners
  objects : next.objects = world.objects
  nullRead : next.nullRead = world.nullRead

namespace Reduces

theorem refl (kernel : Kernel world) : Reduces world world := ⟨kernel, .refl _, rfl, rfl, rfl, rfl⟩

theorem trans (first : Reduces world next) (second : Reduces next final) : Reduces world final :=
  ⟨second.kernel, second.keys.trans first.keys, second.born.trans first.born, second.owners.trans first.owners,
    second.objects.trans first.objects,
    second.nullRead.trans first.nullRead⟩

theorem reap (kernel : Kernel world) (present : proc ∈ world.procs) (ended : processIsRunning status = false) :
    Reduces world (world.reap proc status) := by
  have fewer : (World.keys (world.reap proc status)).Sublist (world.keys) := List.erase_sublist.map _
  have perm := @World.serials_reap world proc status present
  refine ⟨⟨?_, ?_, ?_, ?_, ?_⟩, fewer, rfl, rfl, rfl, rfl⟩
  · exact kernel.pids.sublist (fewer.map _)
  · exact kernel.serials.sublist (fewer.map _)
  · exact fun key member => kernel.bounded key (fewer.subset member)
  · exact fun other member => kernel.exits other (List.mem_of_mem_erase member)
  · intro report member
    cases List.mem_cons.mp member with
    | inl new =>
      subst new
      exact ⟨(kernel.bounded _ (World.key_mem present)).2, (List.nodup_cons.mp (perm.nodup_iff.mp kernel.serials)).1, ended⟩
    | inr old =>
      obtain ⟨bounded, gone, ended⟩ := kernel.reports report old
      exact ⟨bounded, fun still => gone ((fewer.map _).subset still), ended⟩

theorem mark (kernel : Kernel world) (ended : processIsRunning status = false) : Reduces world (world.mark pid status) := by
  have same := World.keys_mark world pid status
  refine ⟨⟨?_, ?_, ?_, ?_, ?_⟩, ?_, rfl, rfl, rfl, rfl⟩
  · rw [same]
    exact kernel.pids
  · unfold World.serials
    rw [same]
    exact kernel.serials
  · rw [same]
    exact kernel.bounded
  · intro proc member exitStatus exited
    obtain ⟨before, present, rfl⟩ := List.mem_map.mp member
    split at exited
    · cases earlier : before.exited with
      | none =>
        rw [earlier] at exited
        exact Option.some.inj exited ▸ ended
      | some first =>
        rw [earlier] at exited
        exact kernel.exits before present exitStatus (earlier.trans exited)
    · exact kernel.exits before present exitStatus exited
  · unfold World.serials
    rw [same]
    exact kernel.reports
  · rw [same]

end Reduces

/-- How the waitpid of running ends, and what the object makes of it. -/
inductive Calls (world : World) (object : ChildObject) : World → WaitPid → Prop
  | skipped (result : WaitPid) (quiet : ¬ object.Asks) : Calls world object world result
  | gone (asks : object.Asks) (absent : world.find object.pid = none) : Calls world object world (.failed .ECHILD)
  | runs (proc : Proc) (asks : object.Asks) (found : world.find object.pid = some proc) (runs : proc.exited = none) :
      Calls world object world .unchanged
  | ended (proc : Proc) (status : Int) (asks : object.Asks) (found : world.find object.pid = some proc)
      (exited : proc.exited = some status) : Calls world object (world.reap proc status) (.changed status)

theorem ask_calls (world : World) (object : ChildObject) : Calls world object (world.ask object).1 (world.ask object).2 := by
  unfold World.ask
  by_cases asks : object.Asks
  · rw [if_pos asks]
    unfold World.waitNoHang
    cases found : world.find object.pid with
    | none => exact .gone asks found
    | some proc =>
      dsimp only
      cases exited : proc.exited with
      | none => exact .runs proc asks found exited
      | some status => exact .ended proc status asks found exited
  · rw [if_neg asks]
    exact .skipped .unchanged asks

theorem Calls.reduces {result : WaitPid} (calls : Calls world object next result) (kernel : Kernel world) :
    Reduces world next := by
  cases calls with
  | skipped => exact .refl kernel
  | gone => exact .refl kernel
  | runs => exact .refl kernel
  | ended proc status asks found exited =>
    have present := (World.find_some found).1
    exact .reap kernel present (kernel.exits proc present status exited)

theorem kill_reduces (kernel : Kernel world) (name : Nat) (pid : Int) (interrupted : Bool) :
    Reduces world (world.kill name pid interrupted) := by
  unfold World.kill
  cases found : world.find pid with
  | none => exact ⟨⟨kernel.pids, kernel.serials, kernel.bounded, kernel.exits, kernel.reports⟩, .refl _, rfl, rfl, rfl, rfl⟩
  | some proc =>
    have present := (World.find_some found).1
    have hit : Reduces world { world with kills := (world.owners.held name, some proc.serial) :: world.kills } :=
      ⟨⟨kernel.pids, kernel.serials, kernel.bounded, kernel.exits, kernel.reports⟩, .refl _, rfl, rfl, rfl, rfl⟩
    dsimp only
    split
    · exact hit.trans (.mark hit.kernel (by decide))
    · apply hit.trans
      apply Reduces.reap hit.kernel present
      cases exited : proc.exited with
      | none => decide
      | some status => exact kernel.exits proc present status exited

/-! ## What a member function leaves of the object -/

/-- A status comes to the object, nothing else. -/
structure Keeps (object after : ChildObject) : Prop where
  pid : after.pid = object.pid
  attached : after.attached = object.attached
  shares : after.shares = object.shares
  exited : after.exited = false → object.exited = false

theorem Keeps.refl (object : ChildObject) : Keeps object object := ⟨rfl, rfl, rfl, id⟩

/-- No child has the number. -/
def Cleared (world : World) (pid : Int) : Prop := ∀ key ∈ world.keys, key.1 ≠ pid

theorem cleared_reap (kernel : Kernel world) (found : world.find pid = some proc) : Cleared (world.reap proc status) pid := by
  obtain ⟨present, same⟩ := World.find_some found
  have perm : (world.keys.map Prod.fst).Perm (proc.pid :: (World.keys (world.reap proc status)).map Prod.fst) := by
    unfold World.keys
    rw [List.map_map, List.map_map]
    exact (List.perm_cons_erase present).map _
  have fresh := (List.nodup_cons.mp (perm.nodup_iff.mp kernel.pids)).1
  intro key member other
  apply fresh
  rw [same, ← other]
  exact List.mem_map_of_mem member

theorem exited_of_ended {child : Child} (ended : processIsRunning child.exitStatus = false) : child.exited = true := by
  unfold Child.exited
  rw [ended]
  exact Bool.or_true _

/-- What running leaves: it is true only for a child that is there and runs, and otherwise the number has no child
any more. -/
structure Ran (world next : World) (object after : ChildObject) (res : Bool) : Prop where
  reduces : Reduces world next
  kills : next.kills = world.kills
  keeps : Keeps object after
  runs : res = true → next = world ∧ after = object ∧ object.Asks ∧ ∃ proc, world.find object.pid = some proc ∧ proc.exited = none
  clears : object.Asks → res = false → Cleared next object.pid
  finished : object.Asks → res = false → ∀ proc, world.find object.pid = some proc → proc.exited ≠ none

theorem running_ran (kernel : Kernel world) (object : ChildObject) :
    Ran world (world.running object).1 object (world.running object).2.1 (world.running object).2.2 := by
  have calls := ask_calls world object
  have reduces := calls.reduces kernel
  unfold World.running
  generalize world.ask object = outcome at calls reduces ⊢
  obtain ⟨next, result⟩ := outcome
  dsimp only at calls reduces ⊢
  cases calls with
  | skipped result quiet =>
    have same : object.toChild.running result = (false, .clear, object.toChild) := if_neg quiet
    rw [same]
    exact ⟨reduces, rfl, .refl object, nofun, fun asks => absurd asks quiet, fun asks => absurd asks quiet⟩
  | gone asks absent =>
    have same : object.toChild.running (.failed .ECHILD) = (false, .clear, { object.toChild with exitStatus := 0 }) := if_pos asks
    rw [same]
    exact ⟨reduces, rfl, ⟨rfl, rfl, rfl, fun _ => asks.2⟩, nofun, fun _ _ key member => World.find_none absent member,
      fun _ _ proc found => nomatch absent.symm.trans found⟩
  | runs proc asks found alive =>
    have same : object.toChild.running .unchanged = (true, .clear, object.toChild) := if_pos asks
    rw [same]
    exact ⟨reduces, rfl, .refl object, fun _ => ⟨rfl, rfl, asks, proc, found, alive⟩, fun _ => nofun, fun _ => nofun⟩
  | ended proc status asks found exited =>
    have present := (World.find_some found).1
    have ended := kernel.exits proc present status exited
    have same : object.toChild.running (.changed status) = (false, .clear, { object.toChild with exitStatus := status }) := by
      unfold Child.running Posix.isRunning
      rw [if_pos asks]
      simp [ended]
    rw [same]
    refine ⟨reduces, rfl, ⟨rfl, rfl, rfl, fun _ => asks.2⟩, nofun, fun _ _ =>
      cleared_reap kernel found, fun _ _ other also alive => ?_⟩
    cases found.symm.trans also
    exact nomatch exited.symm.trans alive

theorem terminate_of_running {child asked : Child} {result reap : WaitPid} {res : Bool}
    (ran : child.running result = (res, .clear, asked)) :
    (child.terminate .clear result none reap).2 = { asked with terminated := true } := by
  unfold Child.terminate
  split
  · rw [ran]
    dsimp only
    split <;> rfl
  · rename_i vacant
    have same : child.running result = (false, .clear, child) := if_neg fun asks => vacant asks.1
    rw [same, Prod.mk.injEq, Prod.mk.injEq] at ran
    rw [ran.2.2]
    rfl

/-- What terminate leaves. A signal goes to a child that is there and runs. -/
structure Terminated (world next : World) (name : Nat) (object after : ChildObject) (interrupted : Bool) : Prop where
  reduces : Reduces world next
  keeps : Keeps object after
  kills : next.kills = world.kills ∨ object.Asks ∧ ∃ proc, world.find object.pid = some proc ∧ proc.exited = none ∧
    next.kills = (world.owners.held name, some proc.serial) :: world.kills
  clears : object.Asks → interrupted = false → Cleared next object.pid
  spares : object.Asks → interrupted = true → ∀ proc, world.find object.pid = some proc → proc.exited = none →
    next.keys = world.keys

theorem terminate_terminated (kernel : Kernel world) (name : Nat) (object : ChildObject) (interrupted : Bool) :
    Terminated world (world.terminate name object interrupted).1 name object (world.terminate name object interrupted).2
      interrupted := by
  have calls := ask_calls world object
  have reduces := calls.reduces kernel
  unfold World.terminate
  generalize world.ask object = outcome at calls reduces ⊢
  obtain ⟨next, result⟩ := outcome
  dsimp only at calls reduces ⊢
  generalize reaped : (if interrupted then WaitPid.failed .EINTR else .changed 9) = reap
  cases calls with
  | skipped result quiet =>
    have same : object.toChild.running result = (false, .clear, object.toChild) := if_neg quiet
    rw [same]
    have marked : ∀ failed, (object.toChild.terminate .clear result failed reap).2 =
        { object.toChild with terminated := true } := by
      intro failed
      unfold Child.terminate
      rw [same]
      split <;> rfl
    rw [marked]
    exact ⟨reduces, ⟨rfl, rfl, rfl, nofun⟩, .inl rfl, fun asks => absurd asks quiet, fun asks => absurd asks quiet⟩
  | gone asks absent =>
    have same : object.toChild.running (.failed .ECHILD) = (false, .clear, { object.toChild with exitStatus := 0 }) := if_pos asks
    rw [same]
    have marked : ∀ failed, (object.toChild.terminate .clear (.failed .ECHILD) failed reap).2 =
        { object.toChild with exitStatus := 0, terminated := true } := by
      intro failed
      unfold Child.terminate
      rw [same, if_pos asks.1]
      rfl
    rw [marked]
    exact ⟨reduces, ⟨rfl, rfl, rfl, nofun⟩, .inl rfl, fun _ _ key member => World.find_none absent member, fun _ _ proc found =>
      nomatch absent.symm.trans found⟩
  | ended proc status asks found exited =>
    have present := (World.find_some found).1
    have ended := kernel.exits proc present status exited
    have same : object.toChild.running (.changed status) = (false, .clear, { object.toChild with exitStatus := status }) := by
      unfold Child.running Posix.isRunning
      rw [if_pos asks]
      simp [ended]
    rw [same]
    have marked : ∀ failed, (object.toChild.terminate .clear (.changed status) failed reap).2 =
        { object.toChild with exitStatus := status, terminated := true } := by
      intro failed
      unfold Child.terminate
      rw [same, if_pos asks.1]
      rfl
    rw [marked]
    refine ⟨reduces, ⟨rfl, rfl, rfl, nofun⟩, .inl rfl, fun _ _ => cleared_reap kernel found, fun _ _ other also alive => ?_⟩
    cases found.symm.trans also
    exact nomatch exited.symm.trans alive
  | runs proc asks found alive =>
    have same : object.toChild.running .unchanged = (true, .clear, object.toChild) := if_pos asks
    rw [same, if_pos rfl, found]
    have marked : (object.toChild.terminate .clear .unchanged none reap).2 = { object.toChild with terminated := true } :=
      terminate_of_running same
    simp only [Option.isNone_some, Bool.false_eq_true, if_false]
    rw [marked]
    refine ⟨kill_reduces kernel name object.pid interrupted, ⟨rfl, rfl, rfl, nofun⟩, .inr ⟨asks, proc, found, alive, ?_⟩, ?_, ?_⟩
    · unfold World.kill
      rw [found]
      dsimp only
      split <;> rfl
    · intro _ calm
      unfold World.kill
      rw [found, calm]
      have hit : Kernel { world with kills := (world.owners.held name, some proc.serial) :: world.kills } :=
        ⟨kernel.pids, kernel.serials, kernel.bounded, kernel.exits, kernel.reports⟩
      exact cleared_reap hit found
    · intro _ late _ _ _
      unfold World.kill
      rw [found, late]
      exact World.keys_mark _ _ _

theorem wait_reduces (kernel : Kernel world) (object : ChildObject) (ended : processIsRunning status = false) :
    Reduces world (world.wait object status).1 ∧ Keeps object (world.wait object status).2 ∧
      (world.wait object status).1.kills = world.kills ∧
      ((world.wait object status).2.exited = true → object.exited = false → Cleared (world.wait object status).1 object.pid) := by
  unfold World.wait
  by_cases asks : object.Asks
  · rw [if_pos asks]
    cases found : world.find object.pid with
    | none => exact ⟨.refl kernel, .refl object, rfl, fun _ _ key member => World.find_none found member⟩
    | some proc =>
      have present := (World.find_some found).1
      have finished : processIsRunning (proc.exited.getD status) = false := by
        cases exited : proc.exited with
        | none => exact ended
        | some status => exact kernel.exits proc present status exited
      exact ⟨.reap kernel present finished, ⟨rfl, rfl, rfl, fun _ => asks.2⟩, rfl, fun _ _ => cleared_reap kernel found⟩
  · rw [if_neg asks]
    exact ⟨.refl kernel, .refl object, rfl, fun exited still => absurd (still.symm.trans exited) nofun⟩

/-- What the destructor does to the children. -/
structure Destroyed (world next : World) (name : Nat) (object : ChildObject) (interrupted : Bool) : Prop where
  reduces : Reduces world next
  kills : next.kills = world.kills ∨ object.Asks ∧ ∃ proc, world.find object.pid = some proc ∧ proc.exited = none ∧
    next.kills = (world.owners.held name, some proc.serial) :: world.kills
  clears : world.Ends object interrupted → object.valid = true → Cleared next object.pid
  spares : ¬ world.Ends object interrupted → object.valid = true → next.keys = world.keys

theorem destructor_destroyed (kernel : Kernel world) (name : Nat) (object : ChildObject) (interrupted : Bool) :
    Destroyed world (world.destructor name object interrupted) name object interrupted := by
  unfold World.destructor
  split
  · rename_i looks
    have ran := running_ran kernel object
    generalize world.running object = outcome at ran ⊢
    obtain ⟨asked, after, res⟩ := outcome
    dsimp only at ran ⊢
    cases res with
    | true =>
      obtain ⟨rfl, rfl, asks, proc, found, alive⟩ := ran.runs rfl
      have ended := terminate_terminated kernel name after interrupted
      refine ⟨ended.reduces, ended.kills, fun ends _ => ?_, fun spared _ => ?_⟩
      · apply ended.clears asks
        cases interrupted with
        | false => rfl
        | true => exact absurd alive (ends.2.2 rfl proc found)
      · cases interrupted with
        | false => exact absurd ⟨looks.1, looks.2, nofun⟩ spared
        | true => exact ended.spares asks rfl proc found alive
    | false =>
      refine ⟨ran.reduces, .inl ran.kills, fun _ valid => ran.clears ⟨valid, looks.2⟩ rfl, fun spared valid => ?_⟩
      exact absurd ⟨looks.1, looks.2, fun _ => ran.finished ⟨valid, looks.2⟩ rfl⟩ spared
  · rename_i spared
    exact ⟨.refl kernel, .inl rfl, fun ends => absurd ⟨ends.1, ends.2.1⟩ spared, fun _ _ => rfl⟩

/-! ## Objects and their children -/

structure Fits (world : World) (name : Nat) (object : ChildObject) : Prop where
  linked : object.pid = -1 ↔ world.owners.held name = none
  /-- Without a status there is neither a number to ask for nor a destructor that would. -/
  null : object.shares = false → object.pid = -1 ∧ object.attached = false
  located : ∀ serial, world.owners.held name = some serial → ∀ key ∈ world.keys, key.2 = serial → key.1 = object.pid

structure Sound (world : World) : Prop where
  kernel : Kernel world
  owners : world.owners.Sound
  acquired : ∀ serial ∈ world.owners.acquired, serial < world.born
  known : ∀ serial ∈ world.serials, serial ∈ world.owners.acquired
  objects : ∀ name object, world.objects name = some object → Fits world name object
  absent : ∀ name, world.objects name = none → world.owners.held name = none

namespace Sound

theorem reads (sound : Sound world) (null : Bool) : Sound (world.reads null) :=
  ⟨⟨sound.kernel.pids, sound.kernel.serials, sound.kernel.bounded, sound.kernel.exits, sound.kernel.reports⟩, sound.owners,
    sound.acquired, sound.known, fun name object entry => ⟨(sound.objects name object entry).linked,
      (sound.objects name object entry).null, (sound.objects name object entry).located⟩, sound.absent⟩

theorem reduce (sound : Sound world) (reduces : Reduces world next) : Sound next := by
  refine ⟨reduces.kernel, ?_, ?_, ?_, ?_, ?_⟩
  · rw [reduces.owners]
    exact sound.owners
  · rw [reduces.owners, reduces.born]
    exact sound.acquired
  · rw [reduces.owners]
    exact fun serial member => sound.known serial ((reduces.keys.map _).subset member)
  · intro name object entry
    rw [reduces.objects] at entry
    have fits := sound.objects name object entry
    refine ⟨?_, fits.null, ?_⟩
    · rw [reduces.owners]
      exact fits.linked
    · rw [reduces.owners]
      exact fun serial held key member => fits.located serial held key (reduces.keys.subset member)
  · rw [reduces.owners, reduces.objects]
    exact sound.absent

/-- An object is stored that fits. -/
theorem set (sound : Sound world) (fits : Fits world name object) : Sound (world.set name (some object)) := by
  refine ⟨⟨sound.kernel.pids, sound.kernel.serials, sound.kernel.bounded, sound.kernel.exits, sound.kernel.reports⟩, sound.owners,
    sound.acquired, sound.known, fun other stored entry => ?_, fun other nothing => ?_⟩
  · unfold World.set at entry
    dsimp only at entry
    rw [Function.update_apply] at entry
    split at entry
    · rename_i same
      subst same
      cases entry
      exact ⟨fits.linked, fits.null, fits.located⟩
    · have old := sound.objects other stored entry
      exact ⟨old.linked, old.null, old.located⟩
  · unfold World.set at nothing
    dsimp only at nothing
    rw [Function.update_apply] at nothing
    split at nothing
    · cases nothing
    · exact sound.absent other nothing

theorem act (sound : Sound world) (entry : world.objects name = some object) (reduces : Reduces world next)
    (keeps : Keeps object after) : Sound (next.set name (some after)) := by
  have reduced := sound.reduce reduces
  rw [← reduces.objects] at entry
  have fits := reduced.objects name object entry
  apply reduced.set
  refine ⟨?_, ?_, ?_⟩
  · rw [keeps.pid]
    exact fits.linked
  · rw [keeps.shares, keeps.pid, keeps.attached]
    exact fits.null
  · rw [keeps.pid]
    exact fits.located

/-- An object without a number goes, or one whose child has been let go. -/
theorem remove (sound : Sound world) (name : Nat) : Sound ((world.letGo name).set name none) := by
  refine ⟨⟨sound.kernel.pids, sound.kernel.serials, sound.kernel.bounded, sound.kernel.exits, sound.kernel.reports⟩,
    sound.owners.finish name _, sound.acquired, sound.known, fun other stored entry => ?_, fun other nothing => ?_⟩
  · have held : ((world.letGo name).set name none).owners.held other = if other = name then none else world.owners.held other :=
      Ledger.held_finish other
    unfold World.set at entry
    dsimp only at entry
    rw [Function.update_apply] at entry
    split at entry
    · cases entry
    · rename_i distinct
      have old := sound.objects other stored entry
      rw [if_neg distinct] at held
      refine ⟨?_, old.null, ?_⟩
      · rw [held]
        exact old.linked
      · rw [held]
        exact old.located
  · have held : ((world.letGo name).set name none).owners.held other = if other = name then none else world.owners.held other :=
      Ledger.held_finish other
    rw [held]
    split
    · rfl
    · rename_i distinct
      apply sound.absent other
      unfold World.set at nothing
      dsimp only at nothing
      rwa [Function.update_of_ne distinct] at nothing

theorem launch (sound : Sound world) (vacant : world.objects name = none) (positive : 0 < pid) (free : world.find pid = none) :
    Sound (World.set { world with
      procs := ⟨pid, world.born, none⟩ :: world.procs
      born := world.born + 1
      owners := world.owners.acquire name world.born } name (some (.start pid))) := by
  have kernel := sound.kernel
  have fresh : world.born ∉ world.owners.acquired := fun member => Nat.lt_irrefl _ (sound.acquired _ member)
  have new : world.born ∉ world.serials := fun member => fresh (sound.known _ member)
  have held (other : Nat) : (world.owners.acquire name world.born).held other =
      if other = name then some world.born else world.owners.held other := Function.update_apply ..
  refine ⟨⟨?_, ?_, ?_, ?_, ?_⟩, ?_, ?_, ?_, ?_, ?_⟩
  · refine List.nodup_cons.mpr ⟨fun member => ?_, kernel.pids⟩
    obtain ⟨key, present, same⟩ := List.mem_map.mp member
    exact World.find_none free present same
  · exact List.nodup_cons.mpr ⟨new, kernel.serials⟩
  · intro key member
    cases List.mem_cons.mp member with
    | inl same =>
      rw [same]
      exact ⟨positive, Nat.lt_succ_self _⟩
    | inr old => exact ⟨(kernel.bounded key old).1, Nat.lt_succ_of_lt (kernel.bounded key old).2⟩
  · intro proc member status exited
    cases List.mem_cons.mp member with
    | inl same =>
      rw [same] at exited
      cases exited
    | inr old => exact kernel.exits proc old status exited
  · intro report member
    obtain ⟨bounded, gone, ended⟩ := kernel.reports report member
    refine ⟨Nat.lt_succ_of_lt bounded, fun still => ?_, ended⟩
    cases List.mem_cons.mp still with
    | inl same => exact absurd same (Nat.ne_of_lt bounded)
    | inr old => exact gone old
  · exact sound.owners.acquire (sound.absent name vacant) fresh
  · intro serial member
    cases List.mem_cons.mp member with
    | inl same =>
      rw [same]
      exact Nat.lt_succ_self _
    | inr old => exact Nat.lt_succ_of_lt (sound.acquired serial old)
  · intro serial member
    cases List.mem_cons.mp member with
    | inl same =>
      rw [same]
      exact List.mem_cons_self
    | inr old => exact List.mem_cons_of_mem _ (sound.known serial old)
  · intro other object entry
    have kept := held other
    unfold World.set at entry
    dsimp only at entry
    rw [Function.update_apply] at entry
    split at entry
    · rename_i same
      cases entry
      rw [if_pos same] at kept
      refine ⟨?_, nofun, ?_⟩
      · refine iff_of_false (fun none => ?_) (fun none => nomatch kept.symm.trans none)
        have none : pid = -1 := none
        omega
      · intro serial has key member mine
        cases Option.some.inj (kept.symm.trans has)
        cases List.mem_cons.mp member with
        | inl latest => exact congrArg Prod.fst latest
        | inr old => exact absurd (mine ▸ List.mem_map_of_mem old) new
    · rename_i distinct
      have fits := sound.objects other object entry
      rw [if_neg distinct] at kept
      refine ⟨?_, fits.null, ?_⟩
      · exact fits.linked.trans (iff_of_eq (congrArg (· = none) kept.symm))
      · intro serial has key member mine
        have owned := kept.symm.trans has
        cases List.mem_cons.mp member with
        | inr old => exact fits.located serial owned key old mine
        | inl latest =>
          rw [latest] at mine
          have mine : world.born = serial := mine
          exact absurd (mine ▸ sound.owners.known owned) fresh
  · intro other nothing
    have kept := held other
    unfold World.set at nothing
    dsimp only at nothing
    rw [Function.update_apply] at nothing
    split at nothing
    · cases nothing
    · rename_i distinct
      rw [if_neg distinct] at kept
      exact kept.trans (sound.absent other nothing)

/-- An object goes to a place that has none. -/
theorem handOver {lhs : ChildObject} (sound : Sound world) (vacant : world.objects name = none)
    (entry : world.objects source = some lhs) : Sound (world.handOver name source lhs) := by
  have distinct : name ≠ source := by
    rintro rfl
    exact nomatch vacant.symm.trans entry
  have fits := sound.objects source lhs entry
  have held (other : Nat) : (world.owners.give source name).held other =
      if other = source then none else if other = name then world.owners.held source else world.owners.held other :=
    Ledger.held_give other
  refine ⟨⟨sound.kernel.pids, sound.kernel.serials, sound.kernel.bounded, sound.kernel.exits, sound.kernel.reports⟩,
    sound.owners.give source (sound.absent name vacant), sound.acquired, sound.known, fun other object stored => ?_,
    fun other nothing => ?_⟩
  · have kept := held other
    unfold World.handOver World.set at stored
    dsimp only at stored
    rw [Function.update_apply, Function.update_apply] at stored
    split at stored
    · rename_i same
      cases stored
      rw [if_pos same] at kept
      exact ⟨iff_of_true rfl kept, fun _ => ⟨rfl, rfl⟩, fun serial has => nomatch kept.symm.trans has⟩
    · rename_i elsewhere
      rw [if_neg elsewhere] at kept
      split at stored
      · rename_i same
        cases stored
        rw [if_pos same] at kept
        exact ⟨fits.linked.trans (iff_of_eq (congrArg (· = none) kept.symm)), fits.null,
          fun serial has => fits.located serial (kept.symm.trans has)⟩
      · rename_i another
        rw [if_neg another] at kept
        have old := sound.objects other object stored
        exact ⟨old.linked.trans (iff_of_eq (congrArg (· = none) kept.symm)), old.null,
          fun serial has => old.located serial (kept.symm.trans has)⟩
  · have kept := held other
    unfold World.handOver World.set at nothing
    dsimp only at nothing
    rw [Function.update_apply, Function.update_apply] at nothing
    split at nothing
    · cases nothing
    · rename_i elsewhere
      rw [if_neg elsewhere] at kept
      split at nothing
      · cases nothing
      · rename_i another
        rw [if_neg another] at kept
        exact kept.trans (sound.absent other nothing)

end Sound

theorem set_idem (world : World) (name : Nat) (first second : Option ChildObject) :
    (world.set name first).set name second = world.set name second := by
  unfold World.set
  dsimp only
  rw [Function.update_idem]

theorem moveConstruct_some (taken : step world (.moveConstruct name source) = some next) :
    ∃ lhs, world.objects name = none ∧ world.objects source = some lhs ∧ next = world.handOver name source lhs := by
  simp only [step] at taken
  split at taken
  · rename_i lhs vacant entry
    exact ⟨lhs, vacant, entry, (Option.some.inj taken).symm⟩
  · cases taken

theorem moveAssign_some (taken : step world (.moveAssign name source) = some next) :
    ∃ lhs, world.objects source = some lhs ∧
      (name = source ∧ next = (world.letGo name).set name (some { lhs with pid := -1, attached := false }) ∨
        name ≠ source ∧ next = (world.letGo name).handOver name source lhs) := by
  simp only [step] at taken
  split at taken
  · rename_i lhs _ entry
    refine ⟨lhs, entry, ?_⟩
    split at taken
    · rename_i same
      exact .inl ⟨same, (Option.some.inj taken).symm⟩
    · rename_i distinct
      exact .inr ⟨distinct, (Option.some.inj taken).symm⟩
  · cases taken

theorem step_sound : Preserves step (fun _ _ => True) Sound := by
  intro world op next sound _ taken
  cases op with
  | construct name =>
    simp only [step] at taken
    obtain ⟨vacant, ⟨⟩⟩ := Option.ite_none_right_eq_some.mp taken
    have nothing := sound.absent name vacant
    exact sound.set ⟨iff_of_true rfl nothing, nofun, fun _ held => nomatch nothing.symm.trans held⟩
  | launch name pid =>
    simp only [step] at taken
    obtain ⟨⟨vacant, positive, free⟩, ⟨⟩⟩ := Option.ite_none_right_eq_some.mp taken
    exact sound.launch vacant positive free
  | moveConstruct name source =>
    obtain ⟨lhs, vacant, entry, rfl⟩ := moveConstruct_some taken
    exact sound.handOver vacant entry
  | moveAssign name source =>
    have removed := sound.remove name
    obtain ⟨lhs, entry, ⟨rfl, rfl⟩ | ⟨distinct, rfl⟩⟩ := moveAssign_some taken
    · have nothing : (world.letGo name).owners.held name = none := by
        unfold World.letGo
        rw [Ledger.held_finish, if_pos rfl]
      rw [← set_idem _ name none]
      exact removed.set ⟨iff_of_true rfl nothing, fun _ => ⟨rfl, rfl⟩, fun _ held => nomatch nothing.symm.trans held⟩
    · have moved := removed.handOver (Function.update_self ..) ((Function.update_of_ne (Ne.symm distinct) ..).trans entry)
      have same := set_idem { world.letGo name with owners := (world.letGo name).owners.give source name } name none (some lhs)
      unfold World.handOver
      rw [← same]
      exact moved
  | detach name =>
    obtain ⟨object, entry, rfl⟩ := Option.map_eq_some_iff.mp taken
    have fits := sound.objects name object entry
    exact sound.set ⟨fits.linked, fun null => ⟨(fits.null null).1, rfl⟩, fits.located⟩
  | running name =>
    obtain ⟨object, entry, rfl⟩ := Option.map_eq_some_iff.mp taken
    have ran := running_ran sound.kernel object
    exact (sound.act entry ran.reduces ran.keeps).reads _
  | terminate name interrupted =>
    obtain ⟨object, entry, rfl⟩ := Option.map_eq_some_iff.mp taken
    have ended := terminate_terminated sound.kernel name object interrupted
    exact (sound.act entry ended.reduces ended.keeps).reads _
  | wait name status =>
    obtain ⟨ended, taken⟩ := Option.ite_none_left_eq_some.mp taken
    obtain ⟨object, entry, rfl⟩ := Option.map_eq_some_iff.mp taken
    obtain ⟨reduces, keeps, -⟩ := wait_reduces sound.kernel object (Bool.eq_false_iff.mpr ended)
    exact (sound.act entry reduces keeps).reads _
  | exitCode name =>
    obtain ⟨object, entry, rfl⟩ := Option.map_eq_some_iff.mp taken
    exact sound.reads _
  | destroy name interrupted =>
    obtain ⟨object, entry, rfl⟩ := Option.map_eq_some_iff.mp taken
    have destroyed := destructor_destroyed sound.kernel name object interrupted
    exact ((sound.reduce destroyed.reduces).remove name).reads _
  | exit pid status =>
    obtain ⟨ended, taken⟩ := Option.ite_none_left_eq_some.mp taken
    obtain ⟨proc, found, taken⟩ := Option.bind_eq_some_iff.mp taken
    obtain ⟨-, ⟨⟩⟩ := Option.ite_none_right_eq_some.mp taken
    exact sound.reduce (.mark sound.kernel (Bool.eq_false_iff.mpr ended))
  | steal pid =>
    obtain ⟨proc, found, taken⟩ := Option.bind_eq_some_iff.mp taken
    obtain ⟨status, exited, rfl⟩ := Option.map_eq_some_iff.mp taken
    have present := (World.find_some found).1
    exact sound.reduce (.reap sound.kernel present (sound.kernel.exits proc present status exited))
  | store name status =>
    obtain ⟨object, entry, taken⟩ := Option.bind_eq_some_iff.mp taken
    obtain ⟨serial, held, taken⟩ := Option.bind_eq_some_iff.mp taken
    obtain ⟨-, ⟨⟩⟩ := Option.ite_none_right_eq_some.mp taken
    have fits := sound.objects name object entry
    exact sound.set ⟨fits.linked, fits.null, fits.located⟩

/-! ## Where the objects come from -/

def Op.Launches : Op → Prop
  | .launch _ _ => True
  | _ => False

/-- An object loses what it has. -/
def Op.LetsGo : Op → Prop
  | .moveAssign _ _ => True
  | .destroy _ _ => True
  | _ => False

/-- After a step other than a launch an object has no number, or the number and the child of one before. -/
inductive Origin (world : World) (object : ChildObject) (held : Option Nat) : Prop
  | blank (numberless : object.pid = -1)
  | kept (place : Nat) (before : ChildObject) (entry : world.objects place = some before) (same : held = world.owners.held place)
      (pid : object.pid = before.pid) (exited : object.exited = false → before.exited = false)

/-- A call of a member function. -/
theorem origin_act {place : Nat} {before : ChildObject} (entry : world.objects place = some before)
    (owners : next.owners = world.owners)
    (objects : next.objects = Function.update world.objects place (some after)) (pid : after.pid = before.pid)
    (exited : after.exited = false → before.exited = false) (stored : next.objects name = some object) :
    Origin world object (next.owners.held name) := by
  rw [objects, Function.update_apply] at stored
  rw [owners]
  split at stored
  · rename_i same
    subst same
    cases stored
    exact .kept name before entry rfl pid exited
  · exact .kept name object stored rfl rfl id

theorem origin_keeps {place : Nat} {before : ChildObject} (entry : world.objects place = some before)
    (reduces : Reduces world next)
    (keeps : Keeps before after) (stored : (next.set place (some after)).objects name = some object) :
    Origin world object (next.owners.held name) :=
  have objects : (next.set place (some after)).objects = Function.update world.objects place (some after) := by
    rw [← reduces.objects]
    rfl
  @origin_act world (next.set place (some after))
    name object after place before entry reduces.owners objects keeps.pid keeps.exited stored

theorem origin_handOver {base : World} {lhs : ChildObject} (objects : base.objects = world.objects)
    (ledgers : ∀ other, other ≠ name → base.owners.held other = world.owners.held other)
    (entry : world.objects source = some lhs) (distinct : name ≠ source) {other : Nat}
    (stored : (base.handOver name source lhs).objects other = some object) :
    Origin world object ((base.handOver name source lhs).owners.held other) := by
  have held : (base.handOver name source lhs).owners.held other =
      if other = source then none else if other = name then base.owners.held source else base.owners.held other :=
    Ledger.held_give other
  unfold World.handOver World.set at stored
  dsimp only at stored
  rw [Function.update_apply, Function.update_apply, objects] at stored
  rw [held]
  split at stored
  · cases stored
    exact .blank rfl
  · rename_i elsewhere
    rw [if_neg elsewhere]
    split at stored
    · rename_i same
      cases stored
      rw [if_pos same, ledgers source (Ne.symm distinct)]
      exact .kept source _ entry rfl rfl id
    · rename_i another
      rw [if_neg another, ledgers other another]
      exact .kept other object stored rfl rfl id

theorem origin_letGo (left : Option ChildObject) (numberless : ∀ object, left = some object → object.pid = -1) {other : Nat}
    (stored : ((world.letGo name).set name left).objects other = some object) :
    Origin world object ((world.letGo name).owners.held other) := by
  unfold World.set at stored
  dsimp only at stored
  rw [Function.update_apply] at stored
  split at stored
  · exact .blank (numberless object stored)
  · rename_i distinct
    unfold World.letGo
    rw [Ledger.held_finish, if_neg distinct]
    exact .kept other object stored rfl rfl id

theorem Reduces.origin {held : Option Nat} (reduces : Reduces world next) (origin : Origin next object held) :
    Origin world object held := by
  cases origin with
  | blank numberless => exact .blank numberless
  | kept place before entry same pid exited =>
    rw [reduces.objects] at entry
    rw [reduces.owners] at same
    exact .kept place before entry same pid exited

/-- A signal that an object has sent, for which it looked at a child with its number that runs. -/
def World.Struck (world : World) (hit : Option Nat × Option Nat) : Prop :=
  ∃ name object proc, world.objects name = some object ∧ object.Asks ∧ world.find object.pid = some proc ∧
    hit = (world.owners.held name, some proc.serial)

/-- What a step other than a launch can do. -/
structure Effect (world next : World) (op : Op) : Prop where
  keys : (next.keys).Sublist world.keys
  kills : ∀ hit ∈ next.kills, hit ∈ world.kills ∨ world.Struck hit
  origin : ∀ name object, next.objects name = some object → Origin world object (next.owners.held name)
  ended : ¬ op.LetsGo → next.owners.ended = world.owners.ended

theorem struck_of_kills (entry : world.objects name = some object) (kills : next.kills = world.kills ∨ object.Asks ∧
      ∃ proc, world.find object.pid = some proc ∧ proc.exited = none ∧
        next.kills = (world.owners.held name, some proc.serial) :: world.kills)
    (hit : Option Nat × Option Nat) (member : hit ∈ next.kills) : hit ∈ world.kills ∨ world.Struck hit := by
  obtain same | ⟨asks, proc, found, -, same⟩ := kills
  · exact .inl (same ▸ member)
  · cases List.mem_cons.mp (same ▸ member) with
    | inl new => exact .inr ⟨name, object, proc, entry, asks, found, new⟩
    | inr old => exact .inl old

theorem effect_of_step {op : Op} (sound : Sound world) (taken : step world op = some next) (other : ¬ op.Launches) :
    Effect world next op := by
  have logged (hit : Option Nat × Option Nat) (member : hit ∈ world.kills) : hit ∈ world.kills ∨ world.Struck hit := .inl member
  cases op with
  | construct place =>
    simp only [step] at taken
    obtain ⟨-, ⟨⟩⟩ := Option.ite_none_right_eq_some.mp taken
    refine ⟨.refl _, logged, fun name object stored => ?_, fun _ => rfl⟩
    unfold World.set at stored
    dsimp only at stored
    rw [Function.update_apply] at stored
    split at stored
    · cases stored
      exact .blank rfl
    · exact .kept name object stored rfl rfl id
  | launch place pid => exact absurd trivial other
  | moveConstruct target source =>
    obtain ⟨lhs, vacant, entry, rfl⟩ := moveConstruct_some taken
    have distinct : target ≠ source := by
      rintro rfl
      exact nomatch vacant.symm.trans entry
    exact ⟨.refl _, logged, fun _ _ => origin_handOver rfl (fun _ _ => rfl) entry distinct, fun _ => rfl⟩
  | moveAssign target source =>
    obtain ⟨lhs, entry, ⟨rfl, rfl⟩ | ⟨distinct, rfl⟩⟩ := moveAssign_some taken
    · refine ⟨.refl _, logged, fun _ _ => origin_letGo _ ?_, fun kept => absurd trivial kept⟩
      rintro _ ⟨⟩
      rfl
    · have same : (world.letGo target).objects = world.objects := rfl
      refine ⟨.refl _, logged, fun _ _ => origin_handOver same (fun other distinct => ?_) entry distinct, fun kept =>
        absurd trivial kept⟩
      unfold World.letGo
      rw [Ledger.held_finish, if_neg distinct]
  | detach place =>
    obtain ⟨object, entry, rfl⟩ := Option.map_eq_some_iff.mp taken
    exact ⟨.refl _, logged, fun _ _ => origin_act entry rfl rfl rfl id, fun _ => rfl⟩
  | running place =>
    obtain ⟨object, entry, rfl⟩ := Option.map_eq_some_iff.mp taken
    have ran := running_ran sound.kernel object
    have called := fun name stored => @origin_keeps world _ name stored _ place object entry ran.reduces ran.keeps
    exact ⟨ran.reduces.keys, struck_of_kills entry (.inl ran.kills), called, fun _ => congrArg Ledger.ended ran.reduces.owners⟩
  | terminate place interrupted =>
    obtain ⟨object, entry, rfl⟩ := Option.map_eq_some_iff.mp taken
    have ended := terminate_terminated sound.kernel place object interrupted
    have called := fun name stored => @origin_keeps world _ name stored _ place object entry ended.reduces ended.keeps
    exact ⟨ended.reduces.keys, struck_of_kills entry ended.kills, called, fun _ => congrArg Ledger.ended ended.reduces.owners⟩
  | wait place status =>
    obtain ⟨ended, taken⟩ := Option.ite_none_left_eq_some.mp taken
    obtain ⟨object, entry, rfl⟩ := Option.map_eq_some_iff.mp taken
    obtain ⟨reduces, keeps, kills, -⟩ := wait_reduces sound.kernel object (Bool.eq_false_iff.mpr ended)
    have called := fun name stored => @origin_keeps world _ name stored _ place object entry reduces keeps
    exact ⟨reduces.keys, struck_of_kills entry (.inl kills), called, fun _ => congrArg Ledger.ended reduces.owners⟩
  | exitCode place =>
    obtain ⟨object, entry, rfl⟩ := Option.map_eq_some_iff.mp taken
    exact ⟨.refl _, logged, fun name object stored => .kept name object stored rfl rfl id, fun _ => rfl⟩
  | destroy place interrupted =>
    obtain ⟨object, entry, rfl⟩ := Option.map_eq_some_iff.mp taken
    have destroyed := destructor_destroyed sound.kernel place object interrupted
    refine ⟨destroyed.reduces.keys, struck_of_kills entry destroyed.kills, fun name object stored => ?_, fun kept =>
      absurd trivial kept⟩
    exact destroyed.reduces.origin (origin_letGo none nofun stored)
  | exit pid status =>
    obtain ⟨ended, taken⟩ := Option.ite_none_left_eq_some.mp taken
    obtain ⟨proc, found, taken⟩ := Option.bind_eq_some_iff.mp taken
    obtain ⟨-, ⟨⟩⟩ := Option.ite_none_right_eq_some.mp taken
    have reduces : Reduces world (world.mark pid status) := .mark sound.kernel (Bool.eq_false_iff.mpr ended)
    exact ⟨reduces.keys, logged, fun name object stored => .kept name object stored rfl rfl id, fun _ => rfl⟩
  | steal pid =>
    obtain ⟨proc, found, taken⟩ := Option.bind_eq_some_iff.mp taken
    obtain ⟨status, exited, rfl⟩ := Option.map_eq_some_iff.mp taken
    have present := (World.find_some found).1
    have reduces : Reduces world (world.reap proc status) :=
      .reap sound.kernel present (sound.kernel.exits proc present status exited)
    exact ⟨reduces.keys, logged, fun name object stored => .kept name object stored rfl rfl id, fun _ => rfl⟩
  | store place status =>
    obtain ⟨object, entry, taken⟩ := Option.bind_eq_some_iff.mp taken
    obtain ⟨serial, held, taken⟩ := Option.bind_eq_some_iff.mp taken
    obtain ⟨reported, ⟨⟩⟩ := Option.ite_none_right_eq_some.mp taken
    refine ⟨.refl _, logged, fun name stored => origin_act entry rfl rfl rfl fun active => ?_, fun _ => rfl⟩
    have ended := (sound.kernel.reports _ reported).2.2
    exact nomatch active.symm.trans (exited_of_ended ended)

/-! ## Whom the signals hit -/

/-- The number of a child that an object still counts as running is not given to a new one. -/
def Careful (world : World) : Op → Prop
  | .launch _ pid => ∀ name object, world.objects name = some object → object.pid = pid → object.exited = true
  | _ => True

/-- The child with the number of an object that counts as running is the one of the object. -/
def Aligned (world : World) : Prop :=
  ∀ name object, world.objects name = some object → object.exited = false →
    ∀ key ∈ world.keys, key.1 = object.pid → world.owners.held name = some key.2

theorem aligned_launch (aligned : Aligned world) (careful : Careful world (.launch name pid))
    (taken : step world (.launch name pid) = some next) : Aligned next := by
  simp only [step] at taken
  obtain ⟨⟨vacant, -, free⟩, ⟨⟩⟩ := Option.ite_none_right_eq_some.mp taken
  intro place object stored active key member same
  have held :
      (world.owners.acquire name world.born).held place = if place = name then some world.born else world.owners.held place :=
    Function.update_apply ..
  refine Eq.trans held ?_
  unfold World.set at stored
  dsimp only at stored
  rw [Function.update_apply] at stored
  split at stored
  · rename_i here
    cases stored
    rw [if_pos here]
    cases List.mem_cons.mp member with
    | inl new => rw [new]
    | inr old => exact absurd same (World.find_none free old)
  · rename_i elsewhere
    rw [if_neg elsewhere]
    cases List.mem_cons.mp member with
    | inr old => exact aligned place object stored active key old same
    | inl new =>
      rw [new] at same
      exact nomatch active.symm.trans (careful place object stored same.symm)

theorem step_aligned : Preserves step Careful (fun world => Sound world ∧ Aligned world) := by
  rintro world op next ⟨sound, aligned⟩ careful taken
  refine ⟨step_sound world op next sound trivial taken, ?_⟩
  by_cases launches : op.Launches
  · cases op with
    | launch name pid => exact aligned_launch aligned careful taken
    | _ => exact absurd launches id
  intro name object stored active key member same
  have effect := effect_of_step sound taken launches
  have old := effect.keys.subset member
  cases effect.origin name object stored with
  | blank numberless =>
    have positive := (sound.kernel.bounded key old).1
    omega
  | kept place before entry held pid exited =>
    rw [held]
    exact aligned place before entry (exited active) key old (same.trans pid)

theorem sound_start : Sound {} where
  kernel := ⟨.nil, .nil, nofun, nofun, nofun⟩
  owners := Ledger.sound_empty
  acquired := nofun
  known := nofun
  objects := nofun
  absent _ _ := rfl

theorem kills_of_step {op : Op} (sound : Sound world) (taken : step world op = some next) (hit : Option Nat × Option Nat)
    (member : hit ∈ next.kills) : hit ∈ world.kills ∨ world.Struck hit := by
  by_cases launches : op.Launches
  · cases op with
    | launch name pid =>
      simp only [step] at taken
      obtain ⟨-, ⟨⟩⟩ := Option.ite_none_right_eq_some.mp taken
      exact .inl member
    | _ => exact absurd launches id
  · exact (effect_of_step sound taken launches).kills hit member

/-- Every signal goes to a child of this process that has not been reaped, and if no number is used again
while an object counts its child as running, to the child of the object. -/
theorem kills_of_run (final : World) (ops : List Op) (reached : run step {} ops = some final) :
    (∀ hit ∈ final.kills, hit.2.isSome) ∧ (Admits step Careful {} ops → ∀ hit ∈ final.kills, hit.1 = hit.2) := by
  constructor
  · have preserved : Preserves step (fun _ _ => True) fun world => Sound world ∧ ∀ hit ∈ world.kills, hit.2.isSome := by
      rintro world op next ⟨sound, known⟩ - taken
      refine ⟨step_sound world op next sound trivial taken, fun hit member => ?_⟩
      obtain old | ⟨_, _, _, -, -, -, rfl⟩ := kills_of_step sound taken hit member
      · exact known hit old
      · rfl
    exact (run_invariant preserved ⟨sound_start, nofun⟩ admits_true reached).2
  · intro admitted
    have preserved : Preserves step Careful fun world => (Sound world ∧ Aligned world) ∧ ∀ hit ∈ world.kills, hit.1 = hit.2 := by
      rintro world op next ⟨both, own⟩ careful taken
      refine ⟨step_aligned world op next both careful taken, fun hit member => ?_⟩
      obtain old | ⟨name, object, proc, entry, asks, found, rfl⟩ := kills_of_step both.1 taken hit member
      · exact own hit old
      · obtain ⟨present, same⟩ := World.find_some found
        exact both.2 name object entry asks.2 _ (World.key_mem present) same
    exact (run_invariant preserved ⟨⟨sound_start, nofun⟩, nofun⟩ admitted reached).2

/-- A child goes to a second object and is killed there. -/
def movedAndKilled : List Op := [.launch 0 10, .moveConstruct 1 0, .terminate 1 false, .destroy 0 false, .destroy 1 false]

theorem kills_of_run_movedAndKilled : ∃ final, run step {} movedAndKilled = some final ∧ final.kills = [(some 0, some 0)] ∧
    ∀ hit ∈ final.kills, hit.1 = hit.2 :=
  have careful : Admits step Careful {} movedAndKilled :=
    ⟨nofun, fun _ _ => ⟨trivial, fun _ _ => ⟨trivial, fun _ _ => ⟨trivial, fun _ _ => ⟨trivial, fun _ _ => trivial⟩⟩⟩⟩⟩
  ⟨_, rfl, rfl, (kills_of_run _ movedAndKilled rfl).2 careful⟩

/-- A child is reaped behind the back of its object, and terminate hits another one. -/
example : (run step {} [.launch 0 10, .exit 10 0, .steal 10, .launch 1 10, .terminate 0 false]).map World.kills =
    some [(some 0, some 1)] := by decide

/-! ## Reading the status of an object that gave it away -/

/-- wait and the exit codes are only for an object that has its status, or was terminated. -/
def Informed (world : World) : Op → Prop
  | .wait name _ => ∀ object, world.objects name = some object → ¬ object.ReadsNull
  | .exitCode name => ∀ object, world.objects name = some object → object.shares = true
  | _ => True

theorem nullRead_of_step {op : Op} (sound : Sound world) (taken : step world op = some next) :
    next.nullRead = false ↔ world.nullRead = false ∧ Informed world op := by
  have kept (same : next.nullRead = world.nullRead) : next.nullRead = false ↔ world.nullRead = false ∧ True := by
    rw [same, and_true]
  have readsNever {object : ChildObject} {flag : Bool} (quiet : object.shares = false → flag = false) :
      (flag && decide object.ReadsNull) = false := by
    rw [Bool.and_eq_false_iff, decide_eq_false_iff_not]
    by_cases null : object.ReadsNull
    · exact .inl (quiet null.2)
    · exact .inr null
  have reads (middle : World) (null : Bool) (same : middle.nullRead = world.nullRead) :
      (middle.reads null).nullRead = false ↔ world.nullRead = false ∧ null = false := by
    rw [← same]
    exact Bool.or_eq_false_iff
  cases op with
  | construct name =>
    simp only [step] at taken
    obtain ⟨-, ⟨⟩⟩ := Option.ite_none_right_eq_some.mp taken
    exact kept rfl
  | launch name pid =>
    simp only [step] at taken
    obtain ⟨-, ⟨⟩⟩ := Option.ite_none_right_eq_some.mp taken
    exact kept rfl
  | moveConstruct name source =>
    obtain ⟨lhs, -, -, rfl⟩ := moveConstruct_some taken
    exact kept rfl
  | moveAssign name source =>
    obtain ⟨lhs, -, ⟨-, rfl⟩ | ⟨-, rfl⟩⟩ := moveAssign_some taken
    · exact kept rfl
    · exact kept rfl
  | detach name =>
    obtain ⟨object, -, rfl⟩ := Option.map_eq_some_iff.mp taken
    exact kept rfl
  | running name =>
    obtain ⟨object, entry, rfl⟩ := Option.map_eq_some_iff.mp taken
    have fits := sound.objects name object entry
    have ran := running_ran sound.kernel object
    refine (reads _ _ ran.reduces.nullRead).trans (and_congr_right fun _ => iff_of_true ?_ trivial)
    apply readsNever fun null => ?_
    simp [Child.valid, (fits.null null).1]
  | terminate name interrupted =>
    obtain ⟨object, entry, rfl⟩ := Option.map_eq_some_iff.mp taken
    have fits := sound.objects name object entry
    have ended := terminate_terminated sound.kernel name object interrupted
    refine (reads _ _ ended.reduces.nullRead).trans (and_congr_right fun _ => iff_of_true ?_ trivial)
    apply readsNever fun null => ?_
    simp [Child.valid, (fits.null null).1]
  | wait name status =>
    obtain ⟨ended, taken⟩ := Option.ite_none_left_eq_some.mp taken
    obtain ⟨object, entry, rfl⟩ := Option.map_eq_some_iff.mp taken
    have waited := (wait_reduces sound.kernel object (Bool.eq_false_iff.mpr ended)).1
    refine (reads _ _ waited.nullRead).trans (and_congr_right fun _ => ?_)
    rw [decide_eq_false_iff_not]
    exact ⟨fun sighted _ same => Option.some.inj (entry.symm.trans same) ▸ sighted, fun informed => informed object entry⟩
  | exitCode name =>
    obtain ⟨object, entry, rfl⟩ := Option.map_eq_some_iff.mp taken
    refine (reads _ _ rfl).trans (and_congr_right fun _ => ?_)
    rw [Bool.not_eq_false']
    exact ⟨fun shares _ same => Option.some.inj (entry.symm.trans same) ▸ shares, fun informed => informed object entry⟩
  | destroy name interrupted =>
    obtain ⟨object, entry, rfl⟩ := Option.map_eq_some_iff.mp taken
    have fits := sound.objects name object entry
    have destroyed := destructor_destroyed sound.kernel name object interrupted
    refine (reads _ _ destroyed.reduces.nullRead).trans (and_congr_right fun _ => iff_of_true ?_ trivial)
    exact readsNever fun null => (fits.null null).2
  | exit pid status =>
    obtain ⟨-, taken⟩ := Option.ite_none_left_eq_some.mp taken
    obtain ⟨proc, -, taken⟩ := Option.bind_eq_some_iff.mp taken
    obtain ⟨-, ⟨⟩⟩ := Option.ite_none_right_eq_some.mp taken
    exact kept rfl
  | steal pid =>
    obtain ⟨proc, -, taken⟩ := Option.bind_eq_some_iff.mp taken
    obtain ⟨status, -, rfl⟩ := Option.map_eq_some_iff.mp taken
    exact kept rfl
  | store name status =>
    obtain ⟨object, -, taken⟩ := Option.bind_eq_some_iff.mp taken
    obtain ⟨serial, -, taken⟩ := Option.bind_eq_some_iff.mp taken
    obtain ⟨-, ⟨⟩⟩ := Option.ite_none_right_eq_some.mp taken
    exact kept rfl

/-- running, terminate and the destructor never read the status that an object has given away. wait does, unless the
object was terminated before, and the exit codes always do. -/
theorem nullRead_iff_informed (final : World) (ops : List Op) (reached : run step {} ops = some final) :
    final.nullRead = false ↔ Admits step Informed {} ops := by
  refine @last_iff_admits_of_sound World Op step Informed Sound (fun world => world.nullRead = false)
    step_sound ?_ ?_ {} final ops
    sound_start rfl reached
  · intro world op next sound sighted taken
    exact (nullRead_of_step sound taken).trans (and_iff_right sighted)
  · intro world op next sound blind taken sighted
    exact blind ((nullRead_of_step sound taken).mp sighted).1

/-- An object that has been moved from is asked, terminated and waited for. -/
def movedFrom : List Op :=
  [.launch 0 10, .moveConstruct 1 0, .running 0, .terminate 0 false, .wait 0 0, .exit 10 256, .wait 1 0, .exitCode 1,
    .destroy 0 false]

theorem nullRead_iff_informed_movedFrom : ∃ final, run step {} movedFrom = some final ∧ final.nullRead = false ∧
    Admits step Informed {} movedFrom :=
  ⟨_, rfl, rfl, (nullRead_iff_informed _ movedFrom rfl).mp rfl⟩

/-- Without terminate, wait reads through a null pointer. -/
example : (run step {} [.launch 0 10, .moveConstruct 1 0, .wait 0 0]).map World.nullRead = some true := by decide

/-! ## Children that nobody reaps -/

/-- No object loses a child that still has to be reaped, by an assignment or by a destructor that does not see it end. -/
def Tidy (world : World) : Op → Prop
  | .moveAssign name _ => world.unreaped name = false
  | .destroy name interrupted =>
    ∀ object, world.objects name = some object → world.unreaped name = true → world.Ends object interrupted
  | _ => True

theorem unreaped_iff : world.unreaped name = true ↔ ∃ serial, world.owners.held name = some serial ∧ serial ∈ world.serials := by
  have same : world.procs.map Proc.serial = world.serials := by
    unfold World.serials World.keys
    rw [List.map_map]
    rfl
  unfold World.unreaped
  rw [same]
  cases world.owners.held name with
  | none => simp
  | some serial => simp

/-- The children that were let go before they were reaped, after a step that lets one go. -/
theorem dropped_letGo : (∀ serial, (.dropped, serial) ∉ (world.letGo name).owners.ended) ↔
    (∀ serial, (.dropped, serial) ∉ world.owners.ended) ∧ world.unreaped name = false := by
  unfold World.letGo
  dsimp only
  constructor
  · intro none
    refine ⟨fun serial old => none serial (Ledger.mem_ended_finish.mpr (.inr old)), ?_⟩
    rw [Bool.eq_false_iff]
    intro open'
    obtain ⟨serial, held, -⟩ := unreaped_iff.mp open'
    exact none serial (Ledger.mem_ended_finish.mpr (.inl ⟨(if_pos open').symm, held⟩))
  · rintro ⟨none, closed⟩ serial member
    obtain ⟨way, -⟩ | old := Ledger.mem_ended_finish.mp member
    · rw [closed] at way
      exact nomatch way
    · exact none serial old

theorem unreaped_destructor (sound : Sound world) (entry : world.objects name = some object) (interrupted : Bool) :
    World.unreaped (world.destructor name object interrupted) name = false ↔
      (world.unreaped name = true → world.Ends object interrupted) := by
  have fits := sound.objects name object entry
  have destroyed := destructor_destroyed sound.kernel name object interrupted
  generalize world.destructor name object interrupted = later at destroyed
  have ledger := destroyed.reduces.owners
  rw [Bool.eq_false_iff]
  by_cases holds : ∃ serial, world.owners.held name = some serial
  · obtain ⟨serial, held⟩ := holds
    have valid : object.valid = true := by
      unfold Child.valid
      rw [bne_iff_ne]
      exact fun numberless => nomatch held.symm.trans (fits.linked.mp numberless)
    by_cases ends : world.Ends object interrupted
    · refine iff_of_true (fun open' => ?_) fun _ => ends
      obtain ⟨other, same, member⟩ := unreaped_iff.mp open'
      rw [ledger, held] at same
      cases same
      obtain ⟨key, present, mine⟩ := List.mem_map.mp member
      have located := fits.located serial held key (destroyed.reduces.keys.subset present) mine
      exact destroyed.clears ends valid key present located
    · have same : later.unreaped name = world.unreaped name := by
        rw [Bool.eq_iff_iff, unreaped_iff, unreaped_iff, ledger]
        unfold World.serials
        rw [destroyed.spares ends valid]
      rw [same]
      exact ⟨fun closed open' => absurd open' closed, fun decided open' => ends (decided open')⟩
  · have nothing {place : World} (same : place.owners = world.owners) : ¬ place.unreaped name = true := by
      rw [unreaped_iff, same]
      rintro ⟨serial, held, -⟩
      exact holds ⟨serial, held⟩
    exact iff_of_true (nothing ledger) fun open' => absurd open' (nothing rfl)

/-- What an object loses it loses when the destructor has done what it does. -/
theorem letsGo_of_step {op : Op} (sound : Sound world) (taken : step world op = some next) (lets : op.LetsGo) :
    ∃ middle name, Reduces world middle ∧ next.serials = middle.serials ∧
      next.owners.ended = (World.letGo middle name).owners.ended ∧
      (Tidy world op ↔ World.unreaped middle name = false) := by
  cases op with
  | moveAssign name source =>
    obtain ⟨lhs, -, ⟨-, rfl⟩ | ⟨-, rfl⟩⟩ := moveAssign_some taken
    · exact ⟨world, name, .refl sound.kernel, rfl, rfl, Iff.rfl⟩
    · exact ⟨world, name, .refl sound.kernel, rfl, rfl, Iff.rfl⟩
  | destroy name interrupted =>
    obtain ⟨object, entry, rfl⟩ := Option.map_eq_some_iff.mp taken
    have destroyed := destructor_destroyed sound.kernel name object interrupted
    refine ⟨_, name, destroyed.reduces, rfl, rfl, ?_⟩
    rw [unreaped_destructor sound entry]
    exact ⟨fun tidy => tidy object entry, fun sees _ same => Option.some.inj (entry.symm.trans same) ▸ sees⟩
  | _ => exact absurd lets id

theorem launch_of_step {op : Op} (taken : step world op = some next) (launches : op.Launches) :
    next.owners.ended = world.owners.ended ∧ next.serials = world.born :: world.serials := by
  cases op with
  | launch name pid =>
    simp only [step] at taken
    obtain ⟨-, ⟨⟩⟩ := Option.ite_none_right_eq_some.mp taken
    exact ⟨rfl, rfl⟩
  | _ => exact absurd launches id

theorem dropped_of_step {op : Op} (sound : Sound world) (taken : step world op = some next) :
    (∀ serial, (.dropped, serial) ∉ next.owners.ended) ↔ (∀ serial, (.dropped, serial) ∉ world.owners.ended) ∧ Tidy world op := by
  by_cases lets : op.LetsGo
  · obtain ⟨middle, name, reduces, -, same, tidy⟩ := letsGo_of_step sound taken lets
    rw [same, tidy, dropped_letGo, reduces.owners]
  · have same : next.owners.ended = world.owners.ended := by
      by_cases launches : op.Launches
      · exact (launch_of_step taken launches).1
      · exact (effect_of_step sound taken launches).ended lets
    rw [same]
    refine (and_iff_left ?_).symm
    cases op with
    | moveAssign name source => exact absurd trivial lets
    | destroy name interrupted => exact absurd trivial lets
    | _ => trivial

/-- What ended as reaped has been. -/
def Honest (world : World) : Prop := ∀ serial, (.reaped, serial) ∈ world.owners.ended → serial ∉ world.serials

theorem step_honest : Preserves step (fun _ _ => True) fun world => Sound world ∧ Honest world := by
  rintro world op next ⟨sound, honest⟩ - taken
  refine ⟨step_sound world op next sound trivial taken, fun serial member still => ?_⟩
  by_cases launches : op.Launches
  · obtain ⟨same, serials⟩ := launch_of_step taken launches
    rw [same] at member
    rw [serials] at still
    cases List.mem_cons.mp still with
    | inl new =>
      have known := sound.acquired serial (sound.owners.own serial ⟨_, member⟩)
      omega
    | inr old => exact honest serial member old
  · have effect := effect_of_step sound taken launches
    have old := (effect.keys.map Prod.snd).subset still
    by_cases lets : op.LetsGo
    · obtain ⟨middle, name, reduces, serials, same, -⟩ := letsGo_of_step sound taken lets
      rw [same] at member
      obtain ⟨way, held⟩ | before := Ledger.mem_ended_finish.mp member
      · have open' : middle.unreaped name = true := unreaped_iff.mpr ⟨serial, held, serials ▸ still⟩
        rw [open'] at way
        exact nomatch way
      · rw [reduces.owners] at before
        exact honest serial before old
    · rw [effect.ended lets] at member
      exact honest serial member old

/-- A child has one object or was let go once. None is let go before it is reaped exactly if no assignment hits an
object whose child is not, and every destructor of such an object sees the child end. Then no child is left behind that
no object has. -/
theorem child_fate_of_run (final : World) (ops : List Op) (reached : run step {} ops = some final) :
    (∀ serial ∈ final.owners.acquired, final.owners.Fate serial) ∧
      ((∀ serial, (.dropped, serial) ∉ final.owners.ended) ↔ Admits step Tidy {} ops) ∧
      (Admits step Tidy {} ops → ∀ proc ∈ final.procs, ∃ name object, final.objects name = some object ∧
        object.pid = proc.pid ∧ final.owners.held name = some proc.serial) := by
  obtain ⟨sound, honest⟩ := run_invariant step_honest ⟨sound_start, nofun⟩ admits_true reached
  have dropped : (∀ serial, (.dropped, serial) ∉ final.owners.ended) ↔ Admits step Tidy {} ops := by
    refine @last_iff_admits_of_sound World Op step Tidy Sound (fun world => ∀ serial, (.dropped, serial) ∉ world.owners.ended)
      step_sound ?_ ?_ {} final ops sound_start nofun reached
    · intro world op next sound none taken
      exact (dropped_of_step sound taken).trans (and_iff_right none)
    · intro world op next sound lost taken none
      exact lost ((dropped_of_step sound taken).mp none).1
  refine ⟨fun serial known => sound.owners.fate known, dropped, fun admitted proc present => ?_⟩
  have member := World.serial_mem present
  have lasting : ¬ final.owners.Ended proc.serial := by
    rintro ⟨way, ended⟩
    cases way with
    | reaped => exact honest proc.serial ended member
    | dropped => exact dropped.mpr admitted proc.serial ended
  obtain ⟨name, held⟩ := (sound.owners.kept proc.serial).mpr ⟨sound.known _ member, lasting⟩
  cases entry : final.objects name with
  | none => exact nomatch held.symm.trans (sound.absent name entry)
  | some object =>
    have located := (sound.objects name object entry).located proc.serial held _ (World.key_mem present) rfl
    exact ⟨name, object, entry, located.symm, held⟩

/-- One child is killed when its second object goes, one has been reaped by somebody else. -/
def twoChildren : List Op :=
  [.launch 0 10, .moveConstruct 1 0, .launch 2 11, .exit 11 0, .steal 11, .destroy 1 false, .destroy 0 false, .destroy 2 false]

theorem child_fate_of_run_twoChildren :
    ∃ final, run step {} twoChildren = some final ∧ final.owners.ended = [(.reaped, 1), (.reaped, 0)] ∧
    ∀ serial ∈ final.owners.acquired, final.owners.Fate serial :=
  ⟨_, rfl, rfl, (child_fate_of_run _ twoChildren rfl).1⟩

/-- A detached child and one under an assignment are left behind. -/
example : (run step {} [.launch 0 10, .launch 1 11, .detach 0, .moveAssign 1 0, .destroy 1 false]).map
  (fun world => world.owners.ended) =
    some [(.dropped, 0), (.dropped, 1)] := by decide

end BoostProcess.V1.Posix.ChildObjects
