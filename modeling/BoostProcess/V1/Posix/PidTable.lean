import BoostProcess.V1.Child
import Mathlib.Logic.Function.Basic

/-! The children of this process and their numbers.

Once a child is reaped, fork may give its number to another one. So a number does not say which
child is meant; it does together with how many children have had it by then.
-/

set_option autoImplicit false

namespace BoostProcess.V1

open BoostProcess.V2 (Errno ExitStatus)

inductive Process where
  | running
  | zombie (status : ExitStatus)
  | reaped (status : ExitStatus)
  deriving DecidableEq

/-- The children that have had each number, the last one first. -/
abbrev Kernel := Nat → List Process

/-- One child: its number, and how many have had that up to it. -/
structure Forked where
  pid : Nat
  count : Nat
  deriving DecidableEq

namespace Kernel

/-- The child that was the given one in the order of fork. -/
def nth : List Process → Nat → Option Process
  | [], _ => none
  | process :: rest, count => if count = rest.length + 1 then some process else nth rest count

def process (kernel : Kernel) (child : Forked) : Option Process := nth (kernel child.pid) child.count

/-- The last child that has had a number. -/
def current (kernel : Kernel) (pid : Nat) : Forked := ⟨pid, (kernel pid).length⟩

/-- A child that has the number runs. -/
def Running (kernel : Kernel) (pid : Nat) : Prop := (kernel pid).head? = some .running

instance (kernel : Kernel) (pid : Nat) : Decidable (kernel.Running pid) := inferInstanceAs (Decidable (_ = _))

/-- No child has the number, so fork may return it. -/
def free (kernel : Kernel) (pid : Nat) : Bool :=
  match kernel pid with
  | [] | .reaped _ :: _ => true
  | .running :: _ | .zombie _ :: _ => false

def fork (kernel : Kernel) (pid : Nat) : Option Kernel :=
  if kernel.free pid then some (Function.update kernel pid (.running :: kernel pid)) else none

def exit (kernel : Kernel) (pid : Nat) (status : ExitStatus) : Option Kernel :=
  match kernel pid with
  | .running :: rest => some (Function.update kernel pid (.zombie status :: rest))
  | _ => none

/-- `waitpid(pid, &status, WNOHANG)` -/
def waitpid (kernel : Kernel) (pid : Nat) : Kernel × WaitPid :=
  match kernel pid with
  | .running :: _ => (kernel, .unchanged)
  | .zombie status :: rest => (Function.update kernel pid (.reaped status :: rest), .changed status.status)
  | [] | .reaped _ :: _ => (kernel, .failed .ECHILD)

end Kernel

namespace Kernel

variable {kernel next : Kernel} {pid : Nat}

theorem nth_length (processes : List Process) : nth processes processes.length = processes.head? := by
  cases processes with
  | nil => rfl
  | cons process rest => simp [nth]

theorem nth_above {processes : List Process} {count : Nat} (above : processes.length < count) : nth processes count = none := by
  induction processes with
  | nil => rfl
  | cons process rest ih =>
    rw [List.length_cons] at above
    unfold nth
    rw [if_neg (Nat.ne_of_gt above)]
    exact ih (Nat.lt_of_succ_lt above)

theorem process_current (kernel : Kernel) (pid : Nat) : kernel.process (kernel.current pid) = (kernel pid).head? :=
  nth_length (kernel pid)

/-! ## Calls that change the last child -/

/-- The last child that has had the number is in another state. -/
theorem current_update {before after : Process} {rest : List Process} (there : kernel pid = before :: rest) (other : Nat) :
    current (Function.update kernel pid (after :: rest)) other = kernel.current other := by
  unfold current
  rw [Function.update_apply]
  split
  · rename_i here
    rw [here, there]
    rfl
  · rfl

theorem process_update {before after : Process} {rest : List Process} (there : kernel pid = before :: rest) (child : Forked) :
    process (Function.update kernel pid (after :: rest)) child =
      if child = kernel.current pid then some after else kernel.process child := by
  obtain ⟨number, count⟩ := child
  unfold process current
  dsimp only
  rw [Function.update_apply]
  by_cases here : number = pid
  · subst here
    rw [if_pos rfl, there]
    simp only [nth, Forked.mk.injEq, true_and, List.length_cons]
    split <;> rfl
  · rw [if_neg here, if_neg (by simp [here])]

theorem process_fork (forked : kernel.fork pid = some next) (child : Forked) :
    next.process child = if child = ⟨pid, (kernel pid).length + 1⟩ then some .running else kernel.process child := by
  unfold fork at forked
  split at forked
  · cases forked
    obtain ⟨number, count⟩ := child
    unfold process
    dsimp only
    rw [Function.update_apply]
    by_cases here : number = pid
    · subst here
      rw [if_pos rfl]
      simp only [nth, Forked.mk.injEq, true_and]
    · rw [if_neg here, if_neg (by simp [here])]
  · cases forked

theorem current_fork (forked : kernel.fork pid = some next) (other : Nat) :
    next.current other = if other = pid then ⟨pid, (kernel pid).length + 1⟩ else kernel.current other := by
  unfold fork at forked
  split at forked
  · cases forked
    unfold current
    rw [Function.update_apply]
    split
    · rename_i here
      rw [here]
      rfl
    · rfl
  · cases forked

theorem fork_running (forked : kernel.fork pid = some next) {other : Nat} (running : kernel.Running other) :
    next.Running other := by
  unfold fork at forked
  split at forked
  · cases forked
    unfold Running at running ⊢
    rw [Function.update_apply]
    split
    · rfl
    · exact running
  · cases forked

theorem exit_eq {status : ExitStatus} (exited : kernel.exit pid status = some next) :
    ∃ rest, kernel pid = .running :: rest ∧ next = Function.update kernel pid (.zombie status :: rest) := by
  unfold exit at exited
  split at exited
  · rename_i rest there
    cases exited
    exact ⟨rest, there, rfl⟩
  · cases exited

theorem waitpid_eq {result : WaitPid} (asked : kernel.waitpid pid = (next, result)) :
    next = kernel ∨ ∃ status rest, kernel pid = .zombie status :: rest ∧
      next = Function.update kernel pid (.reaped status :: rest) := by
  unfold waitpid at asked
  split at asked
  · cases asked
    exact .inl rfl
  · rename_i status rest there
    cases asked
    exact .inr ⟨status, rest, there, rfl⟩
  · cases asked
    exact .inl rfl
  · cases asked
    exact .inl rfl

theorem current_waitpid {result : WaitPid} (asked : kernel.waitpid pid = (next, result)) (other : Nat) :
    next.current other = kernel.current other := by
  obtain rfl | ⟨status, rest, there, rfl⟩ := waitpid_eq asked
  · rfl
  · exact current_update there other

/-- What a waitpid that reports a status leaves: the last child that has had the number is reaped. -/
theorem waitpid_changed {status : Int} (asked : kernel.waitpid pid = (next, .changed status)) :
    next.free pid = true ∧ ∃ taken, next.process (next.current pid) = some (.reaped taken) ∧ status = taken.status := by
  unfold waitpid at asked
  split at asked
  · cases asked
  · rename_i taken rest there
    cases asked
    constructor
    · simp [free]
    · refine ⟨taken, ?_, rfl⟩
      rw [process_current, Function.update_self]
      rfl
  · cases asked
  · cases asked

theorem waitpid_failed {err : Errno} (asked : kernel.waitpid pid = (next, .failed err)) : next.free pid = true := by
  unfold waitpid at asked
  split at asked
  · cases asked
  · cases asked
  · rename_i there
    cases asked
    simp [free, there]
  · rename_i status rest there
    cases asked
    simp [free, there]

theorem waitpid_unchanged (asked : kernel.waitpid pid = (next, .unchanged)) : next = kernel ∧ kernel.Running pid := by
  unfold waitpid at asked
  split at asked
  · rename_i rest there
    cases asked
    exact ⟨rfl, congrArg List.head? there⟩
  · cases asked
  · cases asked
  · cases asked

theorem waitpid_running {result : WaitPid} (asked : kernel.waitpid pid = (next, result)) {other : Nat}
    (running : kernel.Running other) : next.Running other := by
  obtain rfl | ⟨status, rest, there, rfl⟩ := waitpid_eq asked
  · exact running
  · have different : other ≠ pid := by
      rintro rfl
      unfold Running at running
      rw [there] at running
      cases running
    unfold Running
    rw [Function.update_of_ne different]
    exact running

/-! ## Children that are gone -/

/-- The child was reaped, or there is none. -/
def Gone (kernel : Kernel) (child : Forked) : Prop :=
  ∀ process, kernel.process child = some process → ∃ status, process = .reaped status

theorem gone_current (free : kernel.free pid = true) : kernel.Gone (kernel.current pid) := by
  intro process there
  rw [process_current] at there
  unfold Kernel.free at free
  split at free
  · rename_i none
    rw [none] at there
    cases there
  · rename_i status rest reaped
    rw [reaped] at there
    cases there
    exact ⟨status, rfl⟩
  · cases free
  · cases free

/-- The children up to now stay what they are once they are gone, and only later ones come. -/
structure Grows (kernel next : Kernel) : Prop where
  longer : ∀ pid, (kernel pid).length ≤ (next pid).length
  settled : ∀ child, child.count ≤ (kernel child.pid).length → kernel.Gone child → next.process child = kernel.process child

namespace Grows

theorem refl (kernel : Kernel) : kernel.Grows kernel := ⟨fun _ => Nat.le_refl _, fun _ _ _ => rfl⟩

theorem gone (grows : kernel.Grows next) {child : Forked} (bounded : child.count ≤ (kernel child.pid).length)
    (gone : kernel.Gone child) : next.Gone child := by
  intro process there
  rw [grows.settled child bounded gone] at there
  exact gone process there

theorem trans {last : Kernel} (grows : kernel.Grows next) (later : next.Grows last) : kernel.Grows last where
  longer pid := Nat.le_trans (grows.longer pid) (later.longer pid)
  settled child bounded gone := by
    rw [later.settled child (Nat.le_trans bounded (grows.longer child.pid)) (grows.gone bounded gone)]
    exact grows.settled child bounded gone

/-- The last child that has had the number was not gone. -/
theorem update {before after : Process} {rest : List Process} (there : kernel pid = before :: rest)
    (lives : ∀ status, before ≠ .reaped status) : kernel.Grows (Function.update kernel pid (after :: rest)) where
  longer other := Nat.le_of_eq (congrArg Forked.count (current_update there other)).symm
  settled child _ gone := by
    have different : child ≠ kernel.current pid := by
      rintro rfl
      obtain ⟨status, reaped⟩ := gone before (by rw [process_current, there]; rfl)
      exact lives status reaped
    rw [process_update there, if_neg different]

theorem waitpid {result : WaitPid} (asked : kernel.waitpid pid = (next, result)) : kernel.Grows next := by
  obtain rfl | ⟨status, rest, there, rfl⟩ := waitpid_eq asked
  · exact refl next
  · apply update there
    intro _ same
    cases same

theorem exit {status : ExitStatus} (exited : kernel.exit pid status = some next) : kernel.Grows next := by
  obtain ⟨rest, there, rfl⟩ := exit_eq exited
  apply update there
  intro _ same
  cases same

theorem fork (forked : kernel.fork pid = some next) : kernel.Grows next where
  longer other := by
    have count := congrArg Forked.count (current_fork forked other)
    have length : (next other).length = (next.current other).count := rfl
    rw [length, count]
    split
    · rename_i here
      rw [here]
      exact Nat.le_succ _
    · exact Nat.le_refl _
  settled child bounded _ := by
    rw [process_fork forked, if_neg]
    rintro rfl
    exact Nat.not_succ_le_self _ bounded

theorem reaped (grows : kernel.Grows next) {child : Forked} {status : ExitStatus}
    (reaped : kernel.process child = some (.reaped status)) : next.process child = some (.reaped status) := by
  have bounded : child.count ≤ (kernel child.pid).length := by
    by_contra above
    unfold Kernel.process at reaped
    rw [nth_above (Nat.not_le.mp above)] at reaped
    cases reaped
  rw [grows.settled child bounded]
  · exact reaped
  · intro process there
    rw [reaped] at there
    cases there
    exact ⟨status, rfl⟩

end Grows

end Kernel
end BoostProcess.V1
