import BoostProcess.Library.Transition
import Mathlib.Data.List.Perm.Basic

/-! wait for a group on POSIX: a loop around waitpid, which waits, and waitid, which does not.

Either call can take a child that has exited. Children exit at any time, and a signal can
interrupt waitpid while it waits.
-/

set_option autoImplicit false

namespace BoostProcess.V1.Posix.WaitGroup

open Transition

inductive Errno where
  | ECHILD
  | EINTR
  deriving DecidableEq

/-- The call that wait is in, or the ec that it has returned with. -/
inductive Pc where
  | waitpid
  | waitid
  | returned (ec : Option Errno)
  deriving DecidableEq

/-- What follows a waitpid; its result is errno if it is -1. -/
def Pc.afterWaitpid : Option Errno → Pc
  | some errno => .returned (some errno)
  | none => .waitid

/-- `while ((ret != -1) || (errno != ECHILD))`, and behind the loop ec is cleared. -/
def Pc.afterWaitid : Option Errno → Pc
  | some .ECHILD => .returned none
  | _ => .waitpid

def Pc.after (pc : Pc) (result : Option Errno) : Pc :=
  match pc with
  | waitpid => afterWaitpid result
  | waitid => afterWaitid result
  | returned ec => returned ec

variable {Pid : Type} [DecidableEq Pid]

/-- The children of the group, and where wait is. -/
structure Group (Pid : Type) where
  running : List Pid
  /-- Those that have exited and wait to be reaped. -/
  zombies : List Pid
  reaped : List Pid
  pc : Pc
  deriving DecidableEq

def start (members : List Pid) : Group Pid := ⟨members, [], [], .waitpid⟩

inductive Event (Pid : Type) where
  | exit (pid : Pid)
  /-- The call takes a child that has exited. -/
  | reap (pid : Pid)
  /-- `WNOHANG`: no child has exited. -/
  | idle
  | noChild
  | interrupt
  deriving DecidableEq

/-- No successor where the system does not do so. -/
def step (group : Group Pid) : Event Pid → Option (Group Pid)
  | .exit pid =>
    if pid ∈ group.running then some { group with running := group.running.erase pid, zombies := pid :: group.zombies } else none
  | .reap pid =>
    if (group.pc = .waitpid ∨ group.pc = .waitid) ∧ pid ∈ group.zombies then
      some { group with zombies := group.zombies.erase pid, reaped := pid :: group.reaped, pc := group.pc.after none }
    else none
  | .idle =>
    if group.pc = .waitid ∧ group.running ≠ [] ∧ group.zombies = [] then some { group with pc := group.pc.after none } else none
  | .noChild =>
    if (group.pc = .waitpid ∨ group.pc = .waitid) ∧ group.running = [] ∧ group.zombies = [] then
      some { group with pc := group.pc.after (some .ECHILD) }
    else none
  | .interrupt =>
    if group.pc = .waitpid ∧ group.running ≠ [] ∧ group.zombies = [] then
      some { group with pc := group.pc.after (some .EINTR) }
    else none

/-- What wait should have done when it returns. -/
structure Ended (members : List Pid) (group : Group Pid) : Prop where
  running : group.running = []
  zombies : group.zombies = []
  reaped : group.reaped.Perm members
  clear : group.pc = .returned none

/-- No signal interrupts waitpid, and it is not waitid that takes the last child. -/
def Careful (group : Group Pid) : Event Pid → Prop
  | .reap pid => ¬ (group.pc = .waitid ∧ group.running = [] ∧ group.zombies = [pid])
  | .interrupt => False
  | _ => True

instance (group : Group Pid) : (event : Event Pid) → Decidable (Careful group event)
  | .reap _ => inferInstanceAs (Decidable (¬ _))
  | .interrupt => inferInstanceAs (Decidable False)
  | .exit _ | .idle | .noChild => inferInstanceAs (Decidable True)

/-! ## What a step can do -/

/-- One case for each way in which a call can end, and one for the exit of a child. -/
inductive Moves : Group Pid → Event Pid → Group Pid → Prop
  | exit {running zombies reaped : List Pid} {pc : Pc} {pid : Pid} (present : pid ∈ running) :
      Moves ⟨running, zombies, reaped, pc⟩ (.exit pid) ⟨running.erase pid, pid :: zombies, reaped, pc⟩
  | waitpid {running zombies reaped : List Pid} {pid : Pid} (exited : pid ∈ zombies) :
      Moves ⟨running, zombies, reaped, .waitpid⟩ (.reap pid) ⟨running, zombies.erase pid, pid :: reaped, .waitid⟩
  | waitid {running zombies reaped : List Pid} {pid : Pid} (exited : pid ∈ zombies) :
      Moves ⟨running, zombies, reaped, .waitid⟩ (.reap pid) ⟨running, zombies.erase pid, pid :: reaped, .waitpid⟩
  | idle {running reaped : List Pid} (left : running ≠ []) :
      Moves ⟨running, [], reaped, .waitid⟩ .idle ⟨running, [], reaped, .waitpid⟩
  | failed {reaped : List Pid} : Moves ⟨[], [], reaped, .waitpid⟩ .noChild ⟨[], [], reaped, .returned (some .ECHILD)⟩
  | finished {reaped : List Pid} : Moves ⟨[], [], reaped, .waitid⟩ .noChild ⟨[], [], reaped, .returned none⟩
  | interrupt {running reaped : List Pid} (left : running ≠ []) :
      Moves ⟨running, [], reaped, .waitpid⟩ .interrupt ⟨running, [], reaped, .returned (some .EINTR)⟩

theorem step_moves {group next : Group Pid} {event : Event Pid} (taken : step group event = some next) :
    Moves group event next := by
  obtain ⟨running, zombies, reaped, pc⟩ := group
  cases event with
  | exit pid =>
    simp only [step, Option.ite_none_right_eq_some, Option.some.injEq] at taken
    obtain ⟨present, rfl⟩ := taken
    exact .exit present
  | reap pid =>
    simp only [step, Option.ite_none_right_eq_some, Option.some.injEq] at taken
    obtain ⟨⟨rfl | rfl, exited⟩, rfl⟩ := taken
    · exact .waitpid exited
    · exact .waitid exited
  | idle =>
    simp only [step, Option.ite_none_right_eq_some, Option.some.injEq] at taken
    obtain ⟨⟨rfl, left, rfl⟩, rfl⟩ := taken
    exact .idle left
  | noChild =>
    simp only [step, Option.ite_none_right_eq_some, Option.some.injEq] at taken
    obtain ⟨⟨rfl | rfl, rfl, rfl⟩, rfl⟩ := taken
    · exact .failed
    · exact .finished
  | interrupt =>
    simp only [step, Option.ite_none_right_eq_some, Option.some.injEq] at taken
    obtain ⟨⟨rfl, left, rfl⟩, rfl⟩ := taken
    exact .interrupt left

/-! ## What every run keeps -/

/-- No child is lost, and ec is only cleared when none is left. -/
structure Sound (members : List Pid) (group : Group Pid) : Prop where
  conserved : (group.running ++ group.zombies ++ group.reaped).Perm members
  cleared : group.pc = .returned none → group.running = [] ∧ group.zombies = []

omit [DecidableEq Pid] in
theorem sound_start (members : List Pid) : Sound members (start members) := by
  constructor
  · simp [start]
  · exact nofun

/-- A child that goes from one list to the next. -/
theorem perm_moved {front : List Pid} {pid : Pid} (member : pid ∈ front) (behind : List Pid) :
    (front.erase pid ++ pid :: behind).Perm (front ++ behind) := by
  apply List.Perm.trans List.perm_middle
  exact (List.perm_cons_erase member).symm.append_right behind

theorem sound_step (members : List Pid) : Preserves step (fun _ _ => True) (Sound members) := by
  intro group event next sound _ taken
  obtain ⟨conserved, cleared⟩ := sound
  cases step_moves taken with
  | exit present =>
    constructor
    · exact ((perm_moved present _).append_right _).trans conserved
    · intro returned
      exact absurd (cleared returned).1 (List.ne_nil_of_mem present)
  | waitpid exited =>
    rw [List.append_assoc] at conserved
    constructor
    · rw [List.append_assoc]
      exact ((perm_moved exited _).append_left _).trans conserved
    · exact nofun
  | waitid exited =>
    rw [List.append_assoc] at conserved
    constructor
    · rw [List.append_assoc]
      exact ((perm_moved exited _).append_left _).trans conserved
    · exact nofun
  | idle left => exact ⟨conserved, nofun⟩
  | failed => exact ⟨conserved, nofun⟩
  | finished => exact ⟨conserved, fun _ => ⟨rfl, rfl⟩⟩
  | interrupt left => exact ⟨conserved, nofun⟩

/-! ## Where ec is not cleared -/

/-- wait has not returned with an error, and it does not ask for a child when there is none. -/
structure Unfailing (group : Group Pid) : Prop where
  waiting : group.pc = .waitpid → group.running ≠ [] ∨ group.zombies ≠ []
  returned : ∀ errno, group.pc ≠ .returned (some errno)

theorem unfailing_step {group next : Group Pid} {event : Event Pid} (unfailing : Unfailing group)
    (taken : step group event = some next) : Unfailing next ↔ Careful group event := by
  obtain ⟨waiting, returned⟩ := unfailing
  cases step_moves taken with
  | exit present => exact iff_of_true ⟨fun _ => .inr (List.cons_ne_nil _ _), returned⟩ trivial
  | waitpid exited => exact iff_of_true ⟨nofun, nofun⟩ fun last => nomatch last.1
  | @waitid running zombies reaped pid exited =>
    constructor
    · intro next last
      obtain ⟨-, rfl, rfl⟩ := last
      simpa using next.waiting rfl
    · intro careful
      refine ⟨fun _ => ?_, nofun⟩
      by_contra none
      simp only [not_or, not_not] at none
      cases List.erase_eq_nil_iff.mp none.2 with
      | inl nothing => exact List.ne_nil_of_mem exited nothing
      | inr last => exact careful ⟨rfl, none.1, last⟩
  | idle left => exact iff_of_true ⟨fun _ => .inl left, nofun⟩ trivial
  | failed => exact absurd (waiting rfl) (by simp)
  | finished => exact iff_of_true ⟨nofun, nofun⟩ trivial
  | interrupt left => exact iff_of_false (fun next => next.returned _ rfl) not_false

theorem failing_step {group next : Group Pid} {event : Event Pid} (failing : ¬ Unfailing group)
    (taken : step group event = some next) : ¬ Unfailing next := by
  cases step_moves taken with
  | exit present =>
    intro next
    exact failing ⟨fun _ => .inl (List.ne_nil_of_mem present), next.returned⟩
  | waitpid exited => exact absurd ⟨fun _ => .inr (List.ne_nil_of_mem exited), nofun⟩ failing
  | waitid exited => exact absurd ⟨nofun, nofun⟩ failing
  | idle left => exact absurd ⟨nofun, nofun⟩ failing
  | failed => exact fun next => next.returned _ rfl
  | finished => exact absurd ⟨nofun, nofun⟩ failing
  | interrupt left => exact fun next => next.returned _ rfl

/-- Once wait has returned, all members are reaped and ec is clear if and only if no signal has
interrupted a waitpid and no waitid has taken the last child. -/
theorem ended_iff_careful (members : List Pid) (filled : members ≠ []) (events : List (Event Pid)) (final : Group Pid)
    (reached : run step (start members) events = some final) (ec : Option Errno) (returned : final.pc = .returned ec) :
    Ended members final ↔ Admits step Careful (start members) events := by
  have initial : Unfailing (start members) := ⟨fun _ => .inl filled, nofun⟩
  have sound := run_invariant (sound_step members) (sound_start members) admits_true reached
  rw [← last_iff_admits (fun _ _ _ => unfailing_step) (fun _ _ _ => failing_step) initial reached]
  constructor
  · intro ended
    constructor
    · intro waiting
      rw [ended.clear] at waiting
      cases waiting
    · intro errno failed
      rw [ended.clear] at failed
      cases failed
  · intro unfailing
    have clear : final.pc = .returned none := by
      cases ec with
      | none => exact returned
      | some errno => exact absurd returned (unfailing.returned errno)
    obtain ⟨running, zombies⟩ := sound.cleared clear
    have conserved := sound.conserved
    rw [running, zombies] at conserved
    exact ⟨running, zombies, conserved, clear⟩

/-- Two children, each taken by waitpid before the other one exits. -/
theorem ended_iff_careful_twoChildren : Ended [1, 2] (⟨[], [], [2, 1], .returned none⟩ : Group Nat) :=
  (ended_iff_careful [1, 2] (by decide) [.exit 1, .reap 1, .idle, .exit 2, .reap 2, .noChild] _ (by decide) none rfl).mpr
    (by decide)

/-- Of two children that have exited waitpid takes one and waitid the other, and the next waitpid
finds none. A signal leaves a child running. -/
theorem not_ended_twoExited :
    run step (start [1, 2]) [.exit 1, .exit 2, .reap 1, .reap 2, .noChild] =
        some (⟨[], [], [2, 1], .returned (some .ECHILD)⟩ : Group Nat) ∧
      ¬ Ended [1, 2] (⟨[], [], [2, 1], .returned (some .ECHILD)⟩ : Group Nat) ∧
      run step (start [1]) [.interrupt] = some (⟨[1], [], [], .returned (some .EINTR)⟩ : Group Nat) ∧
      ¬ Ended [1] (⟨[1], [], [], .returned (some .EINTR)⟩ : Group Nat) := by
  refine ⟨by decide, ?_, by decide, ?_⟩
  · intro ended
    cases ended.clear
  · intro ended
    cases ended.clear

end BoostProcess.V1.Posix.WaitGroup
