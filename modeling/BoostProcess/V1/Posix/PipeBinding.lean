import BoostProcess.Library.Descriptors
import BoostProcess.V2.ErrorCode

/-! The pipe initializers of a child: pipe_out and pipe_in between fork and execve.

Each of them binds one end of a pipe to its stdio descriptors and closes the numbers the
child no longer needs. The handlers differ only in the numbers they compare and close.
-/

set_option autoImplicit false

namespace BoostProcess.V1.Posix

open Descriptors
open BoostProcess.V2 (Errno)

variable {File : Type}

/-- The forked child: its descriptors and the calls of `e.set_error` so far. -/
structure Forked (File : Type) where
  table : Table File
  errors : List (Errno × String)

namespace Forked

/-- `if (::dup2(source, target) == -1) e.set_error(get_last_error(), "dup2() failed");` -/
def dup2 (child : Forked File) (source target : Int) : Forked File :=
  match child.table.dup2 source target with
  | some table => { child with table := table }
  | none => { child with errors := child.errors ++ [(.EBADF, "dup2() failed")] }

/-- The result of close is not looked at. -/
def close (child : Forked File) (number : Int) : Forked File :=
  { child with table := child.table.close number }

def dup2All (child : Forked File) (source : Int) (targets : List Int) : Forked File :=
  targets.foldl (fun child target => child.dup2 source target) child

/-- `if (number != spared ...) ::close(number);` -/
def closeUnless (child : Forked File) (number : Int) (spared : List Int) : Forked File :=
  if number ∈ spared then child else child.close number

theorem errors_dup2All (child : Forked File) (source : Int) (targets : List Int) :
    child.errors.length ≤ (child.dup2All source targets).errors.length := by
  induction targets generalizing child with
  | nil => exact Nat.le_refl _
  | cons target rest ih =>
    refine Nat.le_trans ?_ (ih (child.dup2 source target))
    unfold dup2
    split <;> simp

theorem dup2All_table {child : Forked File} {source : Int} {targets : List Int}
    (silent : (child.dup2All source targets).errors = child.errors) :
    child.table.dup2All (targets.map fun target => ⟨source, target⟩) =
      some (child.dup2All source targets).table := by
  induction targets generalizing child with
  | nil => rfl
  | cons target rest ih =>
    have grown := errors_dup2All (child.dup2 source target) source rest
    change ((child.dup2 source target).dup2All source rest).errors = child.errors at silent
    change (child.table.dup2 source target).bind _ = some ((child.dup2 source target).dup2All source rest).table
    cases taken : child.table.dup2 source target with
    | none =>
      -- the reported error would still be there at the end
      rw [silent] at grown
      simp only [dup2, taken, List.length_append, List.length_singleton] at grown
      omega
    | some table =>
      have kept : child.dup2 source target = { child with table := table } := by
        simp [dup2, taken]
      rw [kept] at silent ⊢
      exact ih silent

end Forked

def stdinFileno : Int := 0
def stdoutFileno : Int := 1
def stderrFileno : Int := 2

/-- What the handlers have in common: bind the targets, close the bound end unless its
number is spared, close the opposite end. -/
def onExecSetup (bound opposite : Int) (targets spared : List Int) (child : Forked File) : Forked File :=
  ((child.dup2All bound targets).closeUnless bound spared).close opposite

/-- `pipe_out<p1, p2>` -/
structure PipeOut where
  sink : Int
  source : Int
  deriving DecidableEq, Repr

structure PipeIn where
  source : Int
  sink : Int
  deriving DecidableEq, Repr

/-- `pipe_out<1,-1>` -/
def PipeOut.onExecSetup1 (pipe : PipeOut) : Forked File → Forked File :=
  onExecSetup pipe.sink pipe.source [stdoutFileno] [stdoutFileno]

/-- `pipe_out<2,-1>` -/
def PipeOut.onExecSetup2 (pipe : PipeOut) : Forked File → Forked File :=
  -- the comparison before close is the one of pipe_out<1,-1>
  onExecSetup pipe.sink pipe.source [stderrFileno] [stdoutFileno]

/-- `pipe_out<1,2>` -/
def PipeOut.onExecSetup12 (pipe : PipeOut) : Forked File → Forked File :=
  onExecSetup pipe.sink pipe.source [stdoutFileno, stderrFileno] [stdoutFileno, stderrFileno]

def PipeIn.onExecSetup (pipe : PipeIn) : Forked File → Forked File :=
  Posix.onExecSetup pipe.source pipe.sink [stdinFileno] [stdinFileno]

inductive PipeInitializer where
  | pipeOut1 (pipe : PipeOut)
  | pipeOut2 (pipe : PipeOut)
  | pipeOut12 (pipe : PipeOut)
  | pipeIn (pipe : PipeIn)
  deriving DecidableEq, Repr

namespace PipeInitializer

/-- The end that is bound to the stdio descriptors. -/
def bound : PipeInitializer → Int
  | pipeOut1 pipe | pipeOut2 pipe | pipeOut12 pipe => pipe.sink
  | pipeIn pipe => pipe.source

def opposite : PipeInitializer → Int
  | pipeOut1 pipe | pipeOut2 pipe | pipeOut12 pipe => pipe.source
  | pipeIn pipe => pipe.sink

def targets : PipeInitializer → List Int
  | pipeOut1 _ => [stdoutFileno]
  | pipeOut2 _ => [stderrFileno]
  | pipeOut12 _ => [stdoutFileno, stderrFileno]
  | pipeIn _ => [stdinFileno]

def onExecSetup : PipeInitializer → Forked File → Forked File
  | pipeOut1 pipe => pipe.onExecSetup1
  | pipeOut2 pipe => pipe.onExecSetup2
  | pipeOut12 pipe => pipe.onExecSetup12
  | pipeIn pipe => pipe.onExecSetup

end PipeInitializer

/-- The targets refer to the file of the bound end, whose own number is closed unless it
is a target. -/
structure Established (bound : Int) (targets : List Int) (before after : Table File) : Prop where
  refers : ∀ target ∈ targets, ∃ file, before.file bound = some file ∧ after.file target = some file
  closed : bound ∉ targets → ¬ after.Open bound

section
variable {bound opposite target : Int} {targets spared : List Int} {child : Forked File}

theorem errors_onExecSetup :
    (onExecSetup bound opposite targets spared child).errors = (child.dup2All bound targets).errors := by
  unfold onExecSetup Forked.close Forked.closeUnless
  split <;> rfl

theorem table_onExecSetup (number : Int) :
    (onExecSetup bound opposite targets spared child).table number =
      if number = opposite ∨ number = bound ∧ bound ∉ spared then none
      else (child.dup2All bound targets).table number := by
  unfold onExecSetup Forked.closeUnless Forked.close Table.close
  by_cases spare : bound ∈ spared
  · simp [spare, Function.update_apply]
  · simp only [spare, if_false, not_false_iff, and_true]
    rw [Function.update_apply, Function.update_apply]
    split <;> simp_all

theorem file_dup2All (distinct : targets.Nodup) (silent : (child.dup2All bound targets).errors = child.errors)
    (member : target ∈ targets) :
    (child.dup2All bound targets).table.file target = child.table.file bound := by
  have ran := Forked.dup2All_table silent
  have compatible : Table.Compatible child.table (targets.map fun target => ⟨bound, target⟩) := by
    -- every call reads the same source
    unfold Table.Compatible
    rw [List.pairwise_map]
    exact List.pairwise_of_forall fun _ _ _ => rfl
  have apart : ((targets.map fun target => (⟨bound, target⟩ : Table.Move)).map Table.Move.target).Nodup := by
    rw [List.map_map]
    simpa [Function.comp_def] using distinct
  have assigned := (Table.dup2All_assigned_iff apart ran).mpr compatible
  exact assigned ⟨bound, target⟩ (List.mem_map.mpr ⟨target, member, rfl⟩)

theorem file_bound (silent : (child.dup2All bound targets).errors = child.errors) (member : target ∈ targets) :
    ∃ file, child.table.file bound = some file := by
  have ran := Forked.dup2All_table silent
  cases targets with
  | nil => cases member
  | cons first rest =>
    obtain ⟨next, duplicated, -⟩ := Option.bind_eq_some_iff.mp ran
    obtain ⟨descriptor, entry, -⟩ := Table.dup2_inv duplicated
    exact ⟨descriptor.file, by simp [Table.file, entry]⟩

/-- A handler does its work exactly when the opposite end is no target and the numbers it
spares are those targets that it might close. -/
theorem established_iff (distinct : targets.Nodup) (member : target ∈ targets) (apart : bound ≠ opposite)
    (silent : (onExecSetup bound opposite targets spared child).errors = child.errors) :
    Established bound targets child.table (onExecSetup bound opposite targets spared child).table ↔
      opposite ∉ targets ∧ (bound ∈ targets ↔ bound ∈ spared) := by
  rw [errors_onExecSetup] at silent
  obtain ⟨file, open'⟩ := file_bound silent member
  constructor
  · intro established
    have kept (number : Int) (target : number ∈ targets) : ¬ (number = opposite ∨ number = bound ∧ bound ∉ spared) := by
      intro gone
      obtain ⟨other, -, refers⟩ := established.refers number target
      simp [Table.file, table_onExecSetup, gone] at refers
    refine ⟨fun target => kept opposite target (.inl rfl), fun target => ?_, fun spare => ?_⟩
    · by_contra unspared
      exact kept bound target (.inr ⟨rfl, unspared⟩)
    · by_contra untouched
      -- the end is neither closed nor written, so it is still open
      have frame : (child.dup2All bound targets).table bound = child.table bound := by
        refine Table.dup2All_frame (Forked.dup2All_table silent) ?_
        simp only [List.forall_mem_map]
        rintro other target rfl
        exact untouched target
      have isOpen : child.table.Open bound := Table.open_iff_file.mpr ⟨file, open'⟩
      refine established.closed untouched ?_
      unfold Table.Open at isOpen ⊢
      rw [table_onExecSetup, if_neg (by simp [apart, spare]), frame]
      exact isOpen
  · intro safe
    obtain ⟨absent, spares⟩ := safe
    constructor
    · intro number target
      have kept : ¬ (number = opposite ∨ number = bound ∧ bound ∉ spared) := by
        rintro (rfl | ⟨rfl, unspared⟩)
        · exact absent target
        · exact unspared (spares.mp target)
      refine ⟨file, open', ?_⟩
      rw [← open', ← file_dup2All distinct silent target]
      simp only [Table.file, table_onExecSetup, if_neg kept]
    · intro untouched
      unfold Table.Open
      rw [table_onExecSetup, if_pos (.inr ⟨rfl, fun spare => untouched (spares.mpr spare)⟩)]
      simp

end

namespace PipeInitializer

/-- The opposite end has no stdio number that is bound. pipe_out<2,-1> also fails when its
sink is 2, which it closes, or 1, which it does not. -/
def Safe (initializer : PipeInitializer) : Prop :=
  initializer.opposite ∉ initializer.targets ∧
    match initializer with
    | pipeOut2 pipe => pipe.sink ≠ stdoutFileno ∧ pipe.sink ≠ stderrFileno
    | _ => True

instance : (initializer : PipeInitializer) → Decidable initializer.Safe
  | pipeOut1 _ | pipeOut12 _ | pipeIn _ => inferInstanceAs (Decidable (_ ∧ True))
  | pipeOut2 _ => inferInstanceAs (Decidable (_ ∧ _ ∧ _))

/-- After the handler every bound target refers to the pipe end, and the original number of
the end is closed unless it is a target, exactly when the initializer is safe. -/
theorem onExecSetup_established_iff (initializer : PipeInitializer) (child : Forked File)
    (apart : initializer.bound ≠ initializer.opposite)
    (succeeded : (initializer.onExecSetup child).errors = child.errors) :
    Established initializer.bound initializer.targets child.table (initializer.onExecSetup child).table ↔
      initializer.Safe := by
  cases initializer with
  | pipeOut1 pipe =>
    refine (established_iff (by decide) (List.mem_singleton_self _) apart succeeded).trans ?_
    simp [Safe, opposite, targets]
  | pipeOut2 pipe =>
    refine (established_iff (by decide) (List.mem_singleton_self _) apart succeeded).trans ?_
    simp only [Safe, bound, opposite, targets, List.mem_singleton, stdoutFileno, stderrFileno]
    -- a sink that is exactly one of 1 and 2 is spared and no target, or a target and not spared
    omega
  | pipeOut12 pipe =>
    refine (established_iff (by decide) List.mem_cons_self apart succeeded).trans ?_
    simp [Safe, opposite, targets]
  | pipeIn pipe =>
    refine (established_iff (by decide) (List.mem_singleton_self _) apart succeeded).trans ?_
    simp [Safe, opposite, targets]

/-- A child of a process whose stdout is closed, so that the pipe has the numbers 1 and 3. -/
def childWithoutStdout : Forked String where
  table := fun number =>
    if number = 1 then some ⟨"source", false⟩ else if number = 3 then some ⟨"sink", false⟩ else none
  errors := []

theorem onExecSetup_established_childWithoutStdout :
    Established 3 [2] childWithoutStdout.table ((pipeOut2 ⟨3, 1⟩).onExecSetup childWithoutStdout).table :=
  (onExecSetup_established_iff (pipeOut2 ⟨3, 1⟩) childWithoutStdout (by decide) rfl).mpr (by decide)

/-- pipe_out<1,-1> on the same pipe: stdout is bound and then closed as the opposite end. -/
theorem pipeOut1_closes_stdout :
    ((pipeOut1 ⟨3, 1⟩).onExecSetup childWithoutStdout).errors = childWithoutStdout.errors ∧
      ¬ Established 3 [1] childWithoutStdout.table ((pipeOut1 ⟨3, 1⟩).onExecSetup childWithoutStdout).table := by
  refine ⟨rfl, fun established => ?_⟩
  obtain ⟨file, -, refers⟩ := established.refers 1 (by decide)
  have closed : ((pipeOut1 ⟨3, 1⟩).onExecSetup childWithoutStdout).table 1 = none := rfl
  simp [Table.file, closed] at refers

end PipeInitializer
end BoostProcess.V1.Posix
