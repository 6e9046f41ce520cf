import BoostProcess.Library.Transition
import BoostProcess.V2.ErrorCode
import BoostProcess.V2.ExitCode

/-! child on POSIX: what running, wait and terminate do to the stored exit status.

waitpid may answer anything at any call, since the status of the child may also be taken by
other calls of waitpid. What it reported of the child, to anyone, is kept beside the object.
-/

set_option autoImplicit false

namespace BoostProcess.V1

open BoostProcess.V2 (Errno ErrorCode processIsRunning stillActive)
open Transition

/-- The result of one waitpid for the child. -/
inductive WaitPid where
  /-- -1 -/
  | failed (err : Errno)
  /-- 0, with WNOHANG only: nothing to report. -/
  | unchanged
  | changed (status : Int)
  deriving DecidableEq

def WaitPid.reports : WaitPid → List Int
  | changed status => [status]
  | _ => []

namespace Posix

/-- `is_running(p, exit_code, ec)` -/
def isRunning (result : WaitPid) (exitCode : Int) (ec : ErrorCode) : Bool × Int × ErrorCode :=
  match result with
  | .failed err => (false, exitCode, if err = .ECHILD then ec else .system err.code)
  | .unchanged => (true, exitCode, ec)
  | .changed status => (false, if processIsRunning status then exitCode else status, .clear)

/-- The loop of `wait(p, exit_code, ec)`: the status of an ended child or an error that is not
an interruption, and what waitpid reported on the way. -/
def wait : List WaitPid → Option (List Int × Except Errno Int)
  | .failed err :: rest =>
    if err = .EINTR then wait rest else some ([], .error err)
  | .changed status :: rest =>
    if processIsRunning status then (wait rest).map fun (reports, result) => (status :: reports, result)
    else some ([status], .ok status)
  | _ => none

end Posix

/-- `child`; the flag `_attached` only matters to its destructor. -/
structure Child where
  pid : Int
  exitStatus : Int
  terminated : Bool
  deriving DecidableEq

namespace Child

def start (pid : Int) : Child := ⟨pid, stillActive, false⟩

def exited (child : Child) : Bool := child.terminated || !processIsRunning child.exitStatus

def valid (child : Child) : Bool := child.pid != -1

/-- Whether `running` gets as far as waitpid. -/
def Asks (child : Child) : Prop := child.valid = true ∧ child.exited = false

instance (child : Child) : Decidable child.Asks := inferInstanceAs (Decidable (_ ∧ _))

/-- `running(ec)`, which begins with `ec.clear()`. -/
def running (child : Child) (result : WaitPid) : Bool × ErrorCode × Child :=
  if child.Asks then
    let (res, exitCode, ec) := Posix.isRunning result 0 .clear
    (res, ec, if ec.failed = false ∧ res = false then { child with exitStatus := exitCode } else child)
  else (false, .clear, child)

def wait (child : Child) (results : List WaitPid) : Option (List Int × Child) :=
  if child.Asks then
    (Posix.wait results).map fun (reports, result) =>
      match result with
      | .ok exitCode => (reports, { child with exitStatus := exitCode })
      | .error _ => (reports, child)
  else some ([], child)

/-- `terminate(ec)`: `reap` is the result of the waitpid behind kill, whose status is dropped.
An object without a process leaves `ec` as it is. -/
def terminate (child : Child) (ec : ErrorCode) (result : WaitPid) (kill : Option Errno) (reap : WaitPid) : List Int × Child :=
  if child.valid = true then
    let (res, ec, asked) := child.running result
    let reports := if child.Asks then result.reports else []
    if res = true ∧ ec.failed = false then
      match kill with
      | some _ => (reports ++ reap.reports, asked)
      | none => (reports ++ reap.reports, { asked with terminated := true })
    else (reports, if ec.failed then asked else { asked with terminated := true })
  else ([], if ec.failed then child else { child with terminated := true })

end Child

/-- A call on the object, or something else that happens to the child's status. -/
inductive ChildEvent where
  | running (result : WaitPid)
  | wait (results : List WaitPid)
  | terminate (ec : ErrorCode) (result : WaitPid) (kill : Option Errno) (reap : WaitPid)
  /-- Someone else's waitpid. -/
  | reaped (result : WaitPid)
  /-- The handler that io_context_ref registers: it stores the status, and -1 with an error. -/
  | exitHandler (result : WaitPid)
  deriving DecidableEq

structure Observed where
  child : Child
  /-- The statuses that waitpid has reported of the child. -/
  reported : List Int

namespace Observed

/-- What the waitpid calls of an event report, and the object after it. -/
def effect (child : Child) : ChildEvent → Option (List Int × Child)
  | .running result => some (if child.Asks then result.reports else [], (child.running result).2.2)
  | .wait results => child.wait results
  | .terminate ec result kill reap => some (child.terminate ec result kill reap)
  | .reaped result => some (result.reports, child)
  | .exitHandler (.failed _) => some ([], { child with exitStatus := -1 })
  | .exitHandler .unchanged => none
  | .exitHandler (.changed status) => some ([status], { child with exitStatus := status })

def step (observed : Observed) (event : ChildEvent) : Option Observed :=
  (effect observed.child event).map fun (reports, child) => ⟨child, reports ++ observed.reported⟩

def start (pid : Int) : Observed := ⟨Child.start pid, []⟩

/-- A status that is stored is one that waitpid reported. -/
def Sourced (observed : Observed) : Prop :=
  observed.child.exitStatus = stillActive ∨ observed.child.exitStatus ∈ observed.reported

end Observed

/-- The waitpid of `running` does not fail with ECHILD and does not report a child that has
only stopped. -/
def WaitPid.Decides (result : WaitPid) : Prop :=
  result ≠ .failed .ECHILD ∧ ∀ status, result = .changed status → processIsRunning status = false

/-- The results for which the stored status is what waitpid says. -/
def ChildEvent.Meets (child : Child) : ChildEvent → Prop
  | running result => child.Asks → result.Decides
  | terminate _ result _ _ => child.Asks → result.Decides
  | exitHandler result => ∀ err, result ≠ .failed err
  | _ => True

namespace Child

theorem running_spec {child : Child} {result : WaitPid} (decides : child.Asks → result.Decides) :
    (child.running result).2.2.exitStatus = child.exitStatus ∨
      child.Asks ∧ (child.running result).2.2.exitStatus ∈ result.reports := by
  unfold running
  split
  · rename_i asks
    obtain ⟨present, ended⟩ := decides asks
    cases result with
    | failed err =>
      have other : err ≠ .ECHILD := fun same => present (congrArg WaitPid.failed same)
      apply Or.inl
      simp [Posix.isRunning, other]
    | unchanged =>
      apply Or.inl
      simp [Posix.isRunning]
    | changed status =>
      apply Or.inr
      simp [Posix.isRunning, ended status rfl, WaitPid.reports, asks]
  · exact .inl rfl

theorem wait_loop_spec {results : List WaitPid} {reports : List Int} {status : Int}
    (returned : Posix.wait results = some (reports, .ok status)) : status ∈ reports := by
  induction results generalizing reports with
  | nil => cases returned
  | cons result rest ih =>
    cases result with
    | failed err =>
      unfold Posix.wait at returned
      split at returned
      · exact ih returned
      · cases returned
    | unchanged => cases returned
    | changed reported =>
      unfold Posix.wait at returned
      split at returned
      · obtain ⟨⟨others, result⟩, looped, same⟩ := Option.map_eq_some_iff.mp returned
        cases same
        exact List.mem_cons_of_mem reported (ih looped)
      · cases returned
        exact List.mem_cons_self

theorem wait_spec {child next : Child} {results : List WaitPid} {reports : List Int}
    (returned : child.wait results = some (reports, next)) :
    next.exitStatus = child.exitStatus ∨ next.exitStatus ∈ reports := by
  unfold wait at returned
  split at returned
  · obtain ⟨⟨reported, result⟩, looped, same⟩ := Option.map_eq_some_iff.mp returned
    cases result with
    | error err =>
      cases same
      exact .inl rfl
    | ok status =>
      cases same
      exact .inr (wait_loop_spec looped)
  · cases returned
    exact .inl rfl

theorem terminate_exitStatus (child : Child) (ec : ErrorCode) (result : WaitPid) (kill : Option Errno) (reap : WaitPid) :
    (child.terminate ec result kill reap).2.exitStatus = (child.running result).2.2.exitStatus := by
  unfold terminate
  split
  · dsimp only
    split
    · cases kill <;> rfl
    · cases (child.running result).2.1.failed <;> rfl
  · rename_i vacant
    have silent : ¬ child.Asks := fun asks => vacant asks.1
    unfold running
    rw [if_neg silent]
    split <;> rfl

theorem terminate_reports {child : Child} {ec : ErrorCode} {result reap : WaitPid} {kill : Option Errno} {status : Int}
    (asks : child.Asks) (member : status ∈ result.reports) : status ∈ (child.terminate ec result kill reap).1 := by
  unfold terminate
  rw [if_pos asks.1, if_pos asks]
  dsimp only
  split
  · cases kill with
    | some err => exact List.mem_append_left _ member
    | none => exact List.mem_append_left _ member
  · exact member

theorem terminate_spec {child next : Child} {ec : ErrorCode} {result reap : WaitPid} {kill : Option Errno}
    {reports : List Int} (decides : child.Asks → result.Decides)
    (returned : child.terminate ec result kill reap = (reports, next)) :
    next.exitStatus = child.exitStatus ∨ next.exitStatus ∈ reports := by
  have stored := terminate_exitStatus child ec result kill reap
  rw [returned] at stored
  rw [stored]
  apply (running_spec decides).imp_right
  intro member
  have reported := @terminate_reports child ec result reap kill _ member.1 member.2
  rw [returned] at reported
  exact reported

end Child

namespace Observed

/-- An event that meets the condition stores nothing, or a status that a waitpid of the event
itself reported. -/
theorem effect_spec {child next : Child} {event : ChildEvent} {reports : List Int} (meets : event.Meets child)
    (taken : effect child event = some (reports, next)) :
    next.exitStatus = child.exitStatus ∨ next.exitStatus ∈ reports := by
  cases event with
  | running result =>
    cases taken
    apply (Child.running_spec meets).imp_right
    intro member
    rw [if_pos member.1]
    exact member.2
  | wait results => exact Child.wait_spec taken
  | terminate ec result kill reap => exact Child.terminate_spec meets (Option.some.inj taken)
  | reaped result =>
    cases taken
    exact .inl rfl
  | exitHandler result =>
    cases result with
    | failed err => exact absurd rfl (meets err)
    | unchanged => cases taken
    | changed status =>
      cases taken
      exact .inr List.mem_cons_self

theorem preserves_sourced : Preserves step (fun observed event => event.Meets observed.child) Sourced := by
  intro observed event next sourced meets taken
  obtain ⟨⟨reports, child⟩, happened, rfl⟩ := Option.map_eq_some_iff.mp taken
  unfold Sourced
  rcases effect_spec meets happened with kept | reported
  · dsimp only
    rw [kept]
    exact sourced.imp_right (List.mem_append_right reports)
  · exact .inr (List.mem_append_left _ reported)

/-- An ECHILD or a stopped child makes `running` store 0, the initial value of its local. -/
theorem running_stores_zero {child : Child} {result : WaitPid} (asks : child.Asks)
    (undecided : result = .failed .ECHILD ∨ ∃ status, result = .changed status ∧ processIsRunning status = true) :
    (child.running result).2.2.exitStatus = 0 := by
  unfold Child.running
  rw [if_pos asks]
  rcases undecided with rfl | ⟨status, rfl, stopped⟩
  · rfl
  · simp [Posix.isRunning, stopped]

/-- In every run in which `running`, also inside `terminate`, meets neither ECHILD nor a stopped
child, and no exit handler gets an error, the stored status is still_active or one that waitpid
reported, and it only changes to what a waitpid of the same step reports. -/
theorem exitStatus_sourced (pid : Int) (events : List ChildEvent) (observed : Observed)
    (admitted : Admits step (fun observed event => event.Meets observed.child) (start pid) events)
    (reached : run step (start pid) events = some observed) :
    observed.Sourced ∧ ∀ event reports next, event.Meets observed.child → effect observed.child event = some (reports, next) →
      next.exitStatus = observed.child.exitStatus ∨ next.exitStatus ∈ reports :=
  ⟨run_invariant preserves_sourced (.inl rfl) admitted reached, fun _ _ _ meets taken => effect_spec meets taken⟩

/-- A child that still runs, is waited for once a signal has interrupted that, and asked again. -/
def waitedChild : List ChildEvent :=
  [.running .unchanged, .wait [.failed .EINTR, .changed 256], .running (.failed .ECHILD)]

theorem exitStatus_sourced_waitedChild :
    ∃ observed, run step (start 7) waitedChild = some observed ∧ observed.child.exitStatus = 256 ∧ observed.Sourced ∧
      ∀ event reports next, event.Meets observed.child → effect observed.child event = some (reports, next) →
        next.exitStatus = observed.child.exitStatus ∨ next.exitStatus ∈ reports := by
  refine ⟨_, rfl, rfl, exitStatus_sourced 7 waitedChild _ ?_ rfl⟩
  refine ⟨fun _ => ⟨nofun, nofun⟩, ?_⟩
  rintro _ ⟨rfl⟩
  refine ⟨trivial, ?_⟩
  rintro _ ⟨rfl⟩
  exact ⟨fun asks => absurd asks (by decide), fun _ _ => trivial⟩

/-- Someone else has taken the status 256 of the child; `running` then stores 0. -/
theorem not_sourced_reaped :
    ∃ observed, run step (start 7) [.reaped (.changed 256), .running (.failed .ECHILD)] = some observed ∧
      ¬ observed.Sourced := by
  refine ⟨_, rfl, ?_⟩
  unfold Sourced
  decide

end Observed
end BoostProcess.V1
