import BoostProcess.Library.Descriptors

/-! Processes that inherit their descriptors from each other.

A file is held as long as some process has a descriptor for it. What processes do with
descriptors never makes a file held again: a descriptor comes from one of the same process
or from one of the process that forked it.
-/

set_option autoImplicit false

namespace Processes

open Descriptors

variable {File : Type}

/-- A table has a descriptor for a file. -/
def Has (fds : Table File) (file : File) : Prop := ∃ number, fds.file number = some file

/-- The tables of the processes that live. -/
abbrev Procs (File : Type) := Nat → Option (Table File)

/-- A file to which some process still has a descriptor. -/
def Held (procs : Procs File) (file : File) : Prop := ∃ pid fds, procs pid = some fds ∧ Has fds file

/-- What a process does to its own table. -/
inductive Action where
  | close (number : Int)
  | dup2 (source target : Int)
  /-- `fcntl(number, F_SETFD, ...)` -/
  | setCloseOnExec (number : Int) (flag : Bool)
  | exec
  deriving DecidableEq, Repr

def Action.apply (fds : Table File) : Action → Option (Table File)
  | .close number => some (fds.close number)
  | .dup2 source target => fds.dup2 source target
  | .setCloseOnExec number flag =>
    (fds number).map fun descriptor => Function.update fds number (some ⟨descriptor.file, flag⟩)
  | .exec => some fds.exec

inductive Move where
  | act (pid : Nat) (action : Action)
  | fork (pid child : Nat)
  | exit (pid : Nat)
  deriving DecidableEq, Repr

def Move.apply (procs : Procs File) : Move → Option (Procs File)
  | .act pid action => (procs pid).bind fun fds => (action.apply fds).map fun next => Function.update procs pid (some next)
  | .fork pid child =>
    if (procs child).isSome then none
    else (procs pid).map fun fds => Function.update procs child (some fds)
  | .exit pid => (procs pid).map fun _ => Function.update procs pid none

theorem exec_inv {fds : Table File} {number : Int} {file : File} (there : fds.exec.file number = some file) :
    fds number = some ⟨file, false⟩ := by
  obtain ⟨kept, same⟩ := Table.exec_file_iff.mp there
  unfold Table.Open Table.exec at kept
  unfold Table.file at same
  cases entry : fds number with
  | none => simp [entry] at same
  | some descriptor =>
    obtain ⟨stored, flag⟩ := descriptor
    simp [entry] at same kept
    rw [same, kept]

theorem has_exec_iff {fds : Table File} {file : File} : Has fds.exec file ↔ ∃ number, fds number = some ⟨file, false⟩ := by
  constructor
  · rintro ⟨number, there⟩
    exact ⟨number, exec_inv there⟩
  · rintro ⟨number, entry⟩
    exact ⟨number, by simp [Table.file, Table.exec, entry]⟩

/-- No call gives a process a file that it did not have. -/
theorem has_of_apply {fds next : Table File} {action : Action} {file : File} (done : action.apply fds = some next)
    (has : Has next file) : Has fds file := by
  obtain ⟨found, there⟩ := has
  cases action with
  | close number =>
    cases done
    by_cases same : found = number
    · simp [same, Table.file, Table.close] at there
    · exact ⟨found, by rwa [Table.file, Table.close_of_ne fds same] at there⟩
  | dup2 source target =>
    by_cases same : found = target
    · rw [same, Table.dup2_file_target done] at there
      exact ⟨source, there⟩
    · rw [Table.file, Table.dup2_frame done same] at there
      exact ⟨found, there⟩
  | setCloseOnExec number flag =>
    obtain ⟨descriptor, entry, rfl⟩ := Option.map_eq_some_iff.mp done
    by_cases same : found = number
    · subst same
      exact ⟨found, by simpa [Table.file, entry] using there⟩
    · exact ⟨found, by simpa [Table.file, same] using there⟩
  | exec =>
    cases done
    exact ⟨found, (Table.exec_file_iff.mp there).2⟩

theorem has_of_close {fds : Table File} {number : Int} {file : File} (has : Has (fds.close number) file) : Has fds file := by
  have done : (Action.close number).apply fds = some (fds.close number) := rfl
  exact has_of_apply done has

/-- Once no process has a file, none will have it. -/
theorem held_of_apply {procs next : Procs File} {move : Move} {file : File} (done : move.apply procs = some next)
    (held : Held next file) : Held procs file := by
  obtain ⟨owner, fds, entry, has⟩ := held
  cases move with
  | act pid action =>
    obtain ⟨before, lives, done⟩ := Option.bind_eq_some_iff.mp done
    obtain ⟨changed, applied, rfl⟩ := Option.map_eq_some_iff.mp done
    by_cases same : owner = pid
    · subst same
      rw [Function.update_self, Option.some.injEq] at entry
      exact ⟨owner, before, lives, has_of_apply applied (entry ▸ has)⟩
    · rw [Function.update_of_ne same] at entry
      exact ⟨owner, fds, entry, has⟩
  | fork pid child =>
    simp only [Move.apply] at done
    split at done
    · cases done
    · obtain ⟨before, lives, rfl⟩ := Option.map_eq_some_iff.mp done
      by_cases same : owner = child
      · subst same
        rw [Function.update_self, Option.some.injEq] at entry
        exact ⟨pid, before, lives, entry ▸ has⟩
      · rw [Function.update_of_ne same] at entry
        exact ⟨owner, fds, entry, has⟩
  | exit pid =>
    obtain ⟨before, lives, rfl⟩ := Option.map_eq_some_iff.mp done
    by_cases same : owner = pid
    · rw [same, Function.update_self] at entry
      cases entry
    · rw [Function.update_of_ne same] at entry
      exact ⟨owner, fds, entry, has⟩

/-- A move changes nothing about a process, unless that acts, is forked or exits. -/
theorem apply_frame {procs next : Procs File} {move : Move} {pid : Nat} (done : move.apply procs = some next)
    (acts : ∀ action, move ≠ .act pid action) (forks : ∀ parent, move ≠ .fork parent pid) (exits : move ≠ .exit pid) :
    next pid = procs pid := by
  cases move with
  | act other action =>
    obtain ⟨before, -, done⟩ := Option.bind_eq_some_iff.mp done
    obtain ⟨changed, -, rfl⟩ := Option.map_eq_some_iff.mp done
    refine Function.update_of_ne ?_ _ _
    rintro rfl
    exact acts action rfl
  | fork other child =>
    simp only [Move.apply] at done
    split at done
    · cases done
    · obtain ⟨before, -, rfl⟩ := Option.map_eq_some_iff.mp done
      refine Function.update_of_ne ?_ _ _
      rintro rfl
      exact forks other rfl
  | exit other =>
    obtain ⟨before, -, rfl⟩ := Option.map_eq_some_iff.mp done
    refine Function.update_of_ne ?_ _ _
    rintro rfl
    exact exits rfl

end Processes
