import BoostProcess.V1.Posix.WaitGroup
import BoostProcess.V1.Posix.WaitUntil

/-! wait_until for a group on POSIX: waitid is asked again and again, with a sleep behind each answer.

One answer is about one child, which has exited or stopped, or there is nothing to report.
-/

set_option autoImplicit false

namespace BoostProcess.V1.Posix.WaitGroupUntil

open Transition
open BoostProcess.V2 (Errno)
open WaitUntil (Ec Result)
open WaitGroup (perm_moved)

inductive Pc where
  /-- `timed_out = (Clock::now() > time_out)` -/
  | clock
  /-- `waitid(P_PGID, p.grp, &siginfo, WEXITED | WSTOPPED | WNOHANG)` -/
  | waitid
  | nanosleep
  | returned (result : Result)
  deriving DecidableEq

variable {Pid : Type} [DecidableEq Pid]

structure Group (Pid : Type) where
  running : List Pid
  /-- Those of which it has not been reported that they have stopped. -/
  stopped : List Pid
  zombies : List Pid
  /-- Those that this call has reaped. -/
  reaped : List Pid
  /-- Those that someone else has reaped. -/
  stolen : List Pid
  late : Bool
  /-- The answers that say nothing of an exit. -/
  other : Nat
  sleeps : Nat
  pc : Pc
  deriving DecidableEq

def start (members : List Pid) : Group Pid := ⟨members, [], [], [], [], false, 0, 0, .clock⟩

inductive Event (Pid : Type) where
  | exit (pid : Pid)
  | stop (pid : Pid)
  | steal (pid : Pid)
  | tick
  | clock
  | reap (pid : Pid)
  | report (pid : Pid)
  | nothing
  | noChild
  | fails (errno : Errno)
  | wake
  deriving DecidableEq

/-- `(errno == ECHILD) || (errno == ESRCH)` -/
def Pc.onError (errno : Errno) : Pc :=
  if errno = .ECHILD ∨ errno = .ESRCH then .returned ⟨true, .cleared⟩ else .returned ⟨false, .failed errno⟩

def step (group : Group Pid) : Event Pid → Option (Group Pid)
  | .exit pid =>
    if pid ∈ group.running then
      some { group with
        running := group.running.erase pid
        stopped := group.stopped.filter (· ≠ pid)
        zombies := pid :: group.zombies }
    else none
  | .stop pid => if pid ∈ group.running then some { group with stopped := pid :: group.stopped } else none
  | .steal pid =>
    if pid ∈ group.zombies then some { group with zombies := group.zombies.erase pid, stolen := pid :: group.stolen } else none
  | .tick => some { group with late := true }
  | .clock =>
    if group.pc = .clock then some { group with pc := if group.late then .returned ⟨false, .kept⟩ else .waitid } else none
  | .reap pid =>
    if group.pc = .waitid ∧ pid ∈ group.zombies then
      some { group with zombies := group.zombies.erase pid, reaped := pid :: group.reaped, pc := .nanosleep }
    else none
  | .report pid =>
    if group.pc = .waitid ∧ pid ∈ group.stopped then
      some { group with stopped := group.stopped.erase pid, other := group.other + 1, pc := .nanosleep }
    else none
  | .nothing =>
    if group.pc = .waitid ∧ group.running ≠ [] ∧ group.stopped = [] ∧ group.zombies = [] then
      some { group with other := group.other + 1, pc := .nanosleep }
    else none
  | .noChild =>
    if group.pc = .waitid ∧ group.running = [] ∧ group.zombies = [] then some { group with pc := .onError .ECHILD } else none
  | .fails errno =>
    if group.pc = .waitid ∧ errno ≠ .ECHILD ∧ errno ≠ .ESRCH then some { group with pc := .onError errno } else none
  | .wake => if group.pc = .nanosleep then some { group with sleeps := group.sleeps + 1, pc := .clock } else none

/-- What the call says of the group when it returns. -/
inductive Tells (group : Group Pid) : Result → Prop
  | empty (running : group.running = []) (zombies : group.zombies = []) : Tells group ⟨true, .cleared⟩
  | late (late : group.late = true) : Tells group ⟨false, .kept⟩
  | failed {errno : Errno} (other : errno ≠ .ECHILD ∧ errno ≠ .ESRCH) : Tells group ⟨false, .failed errno⟩

/-- No child is lost, and there is a sleep behind each answer but the last one. -/
structure Sound (members : List Pid) (group : Group Pid) : Prop where
  conserved : (group.running ++ group.zombies ++ (group.reaped ++ group.stolen)).Perm members
  slept : group.sleeps + (if group.pc = .nanosleep then 1 else 0) = group.reaped.length + group.other
  tells : ∀ result, group.pc = .returned result → Tells group result

omit [DecidableEq Pid] in
theorem sound_start (members : List Pid) : Sound members (start members) := by
  constructor
  · simp [start]
  · rfl
  · exact nofun

omit [DecidableEq Pid] in
theorem Tells.later {group : Group Pid} {result : Result} (tells : Tells group result) {zombies : List Pid}
    (fewer : group.zombies = [] → zombies = [])
    {stolen : List Pid} {late : Bool} (stays : group.late = true → late = true) :
    Tells { group with zombies := zombies, stolen := stolen, late := late } result := by
  cases tells with
  | empty running none => exact .empty running (fewer none)
  | late here => exact .late (stays here)
  | failed other => exact .failed other

theorem sound_step (members : List Pid) : Preserves step (fun _ _ => True) (Sound members) := by
  intro group event next sound _ taken
  obtain ⟨conserved, slept, tells⟩ := sound
  cases event with
  | exit pid =>
    simp only [step, Option.ite_none_right_eq_some, Option.some.injEq] at taken
    obtain ⟨present, rfl⟩ := taken
    constructor
    · exact ((perm_moved present _).append_right _).trans conserved
    · exact slept
    · intro result returned
      cases tells result returned with
      | empty running _ => exact absurd running (List.ne_nil_of_mem present)
      | late late => exact .late late
      | failed other => exact .failed other
  | stop pid =>
    simp only [step, Option.ite_none_right_eq_some, Option.some.injEq] at taken
    obtain ⟨present, rfl⟩ := taken
    refine ⟨conserved, slept, fun result returned => ?_⟩
    cases tells result returned with
    | empty running zombies => exact .empty running zombies
    | late late => exact .late late
    | failed other => exact .failed other
  | steal pid =>
    simp only [step, Option.ite_none_right_eq_some, Option.some.injEq] at taken
    obtain ⟨exited, rfl⟩ := taken
    refine ⟨?_, slept, fun result returned => (tells result returned).later (fun none => by rw [none]; rfl) id⟩
    have moved : (group.zombies.erase pid ++ (group.reaped ++ pid :: group.stolen)).Perm
      (group.zombies ++ (group.reaped ++ group.stolen)) :=
      (List.perm_middle.append_left _).trans (perm_moved exited _)
    dsimp only
    rw [List.append_assoc]
    rw [List.append_assoc] at conserved
    exact (moved.append_left _).trans conserved
  | tick =>
    cases taken
    exact ⟨conserved, slept, fun result returned => (tells result returned).later id fun _ => rfl⟩
  | clock =>
    simp only [step, Option.ite_none_right_eq_some, Option.some.injEq] at taken
    obtain ⟨here, rfl⟩ := taken
    rw [here] at slept
    cases late : group.late with
    | true =>
      refine ⟨conserved, slept, fun result returned => ?_⟩
      cases returned
      exact .late rfl
    | false => exact ⟨conserved, slept, nofun⟩
  | reap pid =>
    simp only [step, Option.ite_none_right_eq_some, Option.some.injEq] at taken
    obtain ⟨⟨here, exited⟩, rfl⟩ := taken
    rw [here] at slept
    refine ⟨?_, ?_, nofun⟩
    · dsimp only
      rw [List.append_assoc] at conserved ⊢
      exact ((perm_moved exited _).append_left _).trans conserved
    · simp at slept ⊢
      omega
  | report pid =>
    simp only [step, Option.ite_none_right_eq_some, Option.some.injEq] at taken
    obtain ⟨⟨here, _⟩, rfl⟩ := taken
    rw [here] at slept
    refine ⟨conserved, ?_, nofun⟩
    simp at slept ⊢
    omega
  | nothing =>
    simp only [step, Option.ite_none_right_eq_some, Option.some.injEq] at taken
    obtain ⟨⟨here, _⟩, rfl⟩ := taken
    rw [here] at slept
    refine ⟨conserved, ?_, nofun⟩
    simp at slept ⊢
    omega
  | noChild =>
    simp only [step, Option.ite_none_right_eq_some, Option.some.injEq] at taken
    obtain ⟨⟨here, running, zombies⟩, rfl⟩ := taken
    rw [here] at slept
    refine ⟨conserved, slept, fun result returned => ?_⟩
    cases returned
    exact .empty running zombies
  | fails errno =>
    simp only [step, Option.ite_none_right_eq_some, Option.some.injEq] at taken
    obtain ⟨⟨here, other⟩, rfl⟩ := taken
    have failed : Pc.onError errno = .returned ⟨false, .failed errno⟩ := if_neg (by simp [other])
    rw [here] at slept
    rw [failed]
    refine ⟨conserved, slept, fun result returned => ?_⟩
    cases returned
    exact .failed other
  | wake =>
    simp only [step, Option.ite_none_right_eq_some, Option.some.injEq] at taken
    obtain ⟨here, rfl⟩ := taken
    rw [here] at slept
    exact ⟨conserved, slept, nofun⟩

/-- true is only returned when no member is left, and not before one sleep for each of them that
nobody else has reaped; false without an error only when the time is over. No member is lost. -/
theorem group_returned_of_run (members : List Pid) (events : List (Event Pid)) (final : Group Pid) (result : Result)
    (reached : run step (start members) events = some final) (returned : final.pc = .returned result) :
    Tells final result ∧ (final.running ++ final.zombies ++ (final.reaped ++ final.stolen)).Perm members ∧
      (result.value = true → members.length ≤ final.sleeps + final.stolen.length) := by
  have sound := run_invariant (sound_step members) (sound_start members) admits_true reached
  have tells := sound.tells result returned
  refine ⟨tells, sound.conserved, fun value => ?_⟩
  cases tells with
  | empty running zombies =>
    have conserved := sound.conserved.length_eq
    have slept := sound.slept
    rw [running, zombies] at conserved
    rw [returned] at slept
    simp at conserved slept
    omega
  | late => cases value
  | failed => cases value

/-- Two children, one of which someone else reaps: two answers, with a sleep between them. -/
theorem group_returned_of_run_two :
    let final : Group Nat := ⟨[], [], [], [1], [2], false, 0, 1, .returned ⟨true, .cleared⟩⟩
    Tells final ⟨true, .cleared⟩ ∧ (final.running ++ final.zombies ++ (final.reaped ++ final.stolen)).Perm [1, 2] ∧
      ((⟨true, .cleared⟩ : Result).value = true → [1, 2].length ≤ final.sleeps + final.stolen.length) :=
  group_returned_of_run [1, 2] [.exit 1, .clock, .reap 1, .exit 2, .steal 2, .wake, .clock, .noChild] _ ⟨true, .cleared⟩
    (by decide) rfl

end BoostProcess.V1.Posix.WaitGroupUntil
