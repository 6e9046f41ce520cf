import Mathlib.Data.List.Induction
import Mathlib.Data.List.Nodup
import Mathlib.Data.List.Pairwise
import Mathlib.Logic.Function.Basic

/-! Descriptor tables of one process: close, dup2, close-on-exec and execve.

A table maps descriptor numbers to open files. The second half compares a list
of dup2 calls, made one after another, with the simultaneous assignment that
the list describes.
-/

set_option autoImplicit false

namespace Descriptors

variable {File : Type}

/-- An open descriptor: the file it refers to and its close-on-exec flag. -/
structure Descriptor (File : Type) where
  file : File
  closeOnExec : Bool
  deriving DecidableEq, Repr

/-- Descriptor numbers are the C type `int`; a closed number has no entry. -/
abbrev Table (File : Type) := Int → Option (Descriptor File)

/-- INT_MAX, above every descriptor number that a process can have. -/
def openMax : Int := 2147483647

def IsNumber (number : Int) : Prop := 0 ≤ number ∧ number < openMax

instance (number : Int) : Decidable (IsNumber number) :=
  inferInstanceAs (Decidable (_ ∧ _))

namespace Table

def file (table : Table File) (number : Int) : Option File :=
  (table number).map (·.file)

def close (table : Table File) (number : Int) : Table File :=
  Function.update table number none

/-- dup2 fails on a closed source and on a target that is no descriptor number.
On equal numbers it leaves the descriptor alone, otherwise the new one is not
close-on-exec. -/
def dup2 (table : Table File) (source target : Int) : Option (Table File) :=
  match table source with
  | none => none
  | some descriptor =>
    if IsNumber target then
      if source = target then some table
      else some (Function.update table target (some ⟨descriptor.file, false⟩))
    else none

/-- The table of the new image after a successful execve. -/
def exec (table : Table File) : Table File :=
  fun number => (table number).filter fun descriptor => !descriptor.closeOnExec

/-- Keep the listed numbers and close every other one. -/
def retain (table : Table File) (kept : List Int) : Table File :=
  fun number => if number ∈ kept then table number else none

/-- Close every number of an inclusive range. -/
def closeRange (table : Table File) (first last : Int) : Table File :=
  fun number => if first ≤ number ∧ number ≤ last then none else table number

def Open (table : Table File) (number : Int) : Prop := (table number).isSome = true

instance (table : Table File) (number : Int) : Decidable (table.Open number) :=
  inferInstanceAs (Decidable (_ = true))

@[simp] theorem close_of_ne (table : Table File) {number other : Int} (distinct : other ≠ number) :
    table.close number other = table other := by
  simp [close, distinct]

theorem open_iff_file {table : Table File} {number : Int} :
    table.Open number ↔ ∃ value, table.file number = some value := by
  unfold Open file
  cases table number <;> simp

@[simp] theorem retain_of_mem (table : Table File) {kept : List Int} {number : Int}
    (member : number ∈ kept) : table.retain kept number = table number := by
  simp [retain, member]

theorem open_retain_iff {table : Table File} {kept : List Int} {number : Int} :
    (table.retain kept).Open number ↔ table.Open number ∧ number ∈ kept := by
  unfold Open retain
  by_cases member : number ∈ kept <;> simp [member]

theorem exec_file_iff {table : Table File} {number : Int} {value : File} :
    table.exec.file number = some value ↔ table.exec.Open number ∧ table.file number = some value := by
  unfold file Open exec
  cases table number with
  | none => simp
  | some descriptor =>
    cases descriptor with
    | mk stored flag => cases flag <;> simp

theorem retain_congr (table : Table File) {first second : List Int}
    (same : ∀ number, number ∈ first ↔ number ∈ second) : table.retain first = table.retain second := by
  funext number
  simp [retain, same number]

section
variable {table next : Table File} {source target number : Int}

theorem dup2_inv (duplicated : table.dup2 source target = some next) :
    ∃ descriptor, table source = some descriptor ∧ IsNumber target ∧
      next = if source = target then table
        else Function.update table target (some ⟨descriptor.file, false⟩) := by
  unfold dup2 at duplicated
  cases entry : table source with
  | none => simp [entry] at duplicated
  | some descriptor =>
    simp only [entry] at duplicated
    split at duplicated
    · rename_i numbered
      refine ⟨descriptor, rfl, numbered, ?_⟩
      split at duplicated
      · rename_i same
        -- onto itself nothing is duplicated, and the flag stays
        rw [if_pos same]
        exact (Option.some.inj duplicated).symm
      · rename_i distinct
        rw [if_neg distinct]
        exact (Option.some.inj duplicated).symm
    · cases duplicated

theorem dup2_file_target (duplicated : table.dup2 source target = some next) :
    next.file target = table.file source := by
  obtain ⟨descriptor, entry, -, rfl⟩ := dup2_inv duplicated
  by_cases same : source = target
  · rw [if_pos same, same]
  · simp [file, same, entry]

theorem dup2_frame (duplicated : table.dup2 source target = some next) (distinct : number ≠ target) :
    next number = table number := by
  obtain ⟨descriptor, -, -, rfl⟩ := dup2_inv duplicated
  split
  · rfl
  · simp [distinct]

/-- The flag of the target survives exactly when nothing was duplicated. -/
theorem dup2_exec_target (duplicated : table.dup2 source target = some next) :
    next.exec.Open target ↔ source = target → table.exec.Open target := by
  obtain ⟨descriptor, entry, -, rfl⟩ := dup2_inv duplicated
  by_cases same : source = target
  · simp [same]
  · simp [same, Open, exec]

end

/-! ## Sequential duplication against simultaneous assignment -/

/-- One requested binding: the target shall refer to the file of the source. -/
structure Move where
  source : Int
  target : Int
  deriving DecidableEq, Repr

def dup2All (table : Table File) : List Move → Option (Table File)
  | [] => some table
  | move :: rest => (table.dup2 move.source move.target).bind fun next => next.dup2All rest

/-- The simultaneous assignment: every target got the file its source had at first. -/
def Assigned (initial final : Table File) (moves : List Move) : Prop :=
  ∀ move ∈ moves, final.file move.target = initial.file move.source

/-- A later move may read a target that an earlier one wrote only if both want
the same file. -/
def Compatible (initial : Table File) (moves : List Move) : Prop :=
  moves.Pairwise fun earlier later =>
    later.source = earlier.target → initial.file earlier.source = initial.file later.source

theorem dup2All_append {table final : Table File} {first second : List Move} :
    table.dup2All (first ++ second) = some final ↔
      ∃ middle, table.dup2All first = some middle ∧ middle.dup2All second = some final := by
  induction first generalizing table with
  | nil => simp [dup2All]
  | cons move rest ih =>
    simp only [List.cons_append, dup2All, Option.bind_eq_some_iff, ih]
    constructor
    · rintro ⟨next, duplicated, middle, reached, finished⟩
      exact ⟨middle, ⟨next, duplicated, reached⟩, finished⟩
    · rintro ⟨middle, ⟨next, duplicated, reached⟩, finished⟩
      exact ⟨next, duplicated, middle, reached, finished⟩

theorem dup2All_singleton {table final : Table File} {move : Move} :
    table.dup2All [move] = some final ↔ table.dup2 move.source move.target = some final := by
  simp [dup2All]

theorem dup2All_frame {table final : Table File} {moves : List Move} {number : Int}
    (ran : table.dup2All moves = some final) (untouched : ∀ move ∈ moves, move.target ≠ number) :
    final number = table number := by
  induction moves generalizing table with
  | nil =>
    cases ran
    rfl
  | cons move rest ih =>
    obtain ⟨next, duplicated, ran⟩ := Option.bind_eq_some_iff.mp ran
    rw [ih ran fun other member => untouched other (List.mem_cons_of_mem move member)]
    exact dup2_frame duplicated (untouched move List.mem_cons_self).symm

theorem dup2All_targets {table final : Table File} {moves : List Move}
    (ran : table.dup2All moves = some final) : ∀ move ∈ moves, IsNumber move.target := by
  induction moves generalizing table with
  | nil => simp
  | cons move rest ih =>
    obtain ⟨next, duplicated, ran⟩ := Option.bind_eq_some_iff.mp ran
    obtain ⟨-, -, numbered, -⟩ := dup2_inv duplicated
    intro other member
    rcases List.mem_cons.mp member with rfl | member
    · exact numbered
    · exact ih ran other member

private theorem nodup_snoc {moves : List Move} {last : Move}
    (distinct : ((moves ++ [last]).map Move.target).Nodup) :
    (moves.map Move.target).Nodup ∧ ∀ move ∈ moves, move.target ≠ last.target := by
  rw [List.map_append, List.nodup_append] at distinct
  refine ⟨distinct.1, fun move member => ?_⟩
  exact distinct.2.2 _ (List.mem_map_of_mem member) _ (by simp)

/-- What the last source reads: the file of an earlier target if there is one,
its own initial file otherwise. -/
theorem source_after {initial middle : Table File} {moves : List Move} {last : Move}
    (ran : initial.dup2All moves = some middle) (assigned : Assigned initial middle moves) :
    middle.file last.source = initial.file last.source ↔
      ∀ move ∈ moves, last.source = move.target → initial.file move.source = initial.file last.source := by
  constructor
  · intro kept move member same
    rw [← kept, same]
    exact (assigned move member).symm
  · intro compatible
    -- either an earlier target is read, or nothing has touched the source yet
    by_cases written : ∃ move ∈ moves, last.source = move.target
    · obtain ⟨move, member, same⟩ := written
      rw [← compatible move member same, same]
      exact assigned move member
    · have untouched : ∀ move ∈ moves, move.target ≠ last.source :=
        fun move member same => written ⟨move, member, same.symm⟩
      simp only [file, dup2All_frame ran untouched]

/-- Sequential dup2 calls with distinct targets perform the simultaneous
assignment exactly when the moves are compatible. -/
theorem dup2All_assigned_iff {initial final : Table File} {moves : List Move}
    (distinct : (moves.map Move.target).Nodup) (ran : initial.dup2All moves = some final) :
    Assigned initial final moves ↔ Compatible initial moves := by
  -- from the back: only the last call can read what all the others wrote
  induction moves using List.reverseRecOn generalizing final with
  | nil => simp [Assigned, Compatible]
  | append_singleton moves last ih =>
    obtain ⟨middle, reached, duplicated⟩ := dup2All_append.mp ran
    rw [dup2All_singleton] at duplicated
    obtain ⟨front, fresh⟩ := nodup_snoc distinct
    have before := ih front reached
    have kept : Assigned initial final moves ↔ Assigned initial middle moves := by
      refine forall₂_congr fun move member => ?_
      simp only [file, dup2_frame duplicated (fresh move member)]
    have split : Assigned initial final (moves ++ [last]) ↔
        Assigned initial final moves ∧ final.file last.target = initial.file last.source := by
      simp only [Assigned, List.forall_mem_append, List.forall_mem_singleton]
    rw [split, kept, dup2_file_target duplicated]
    unfold Compatible
    rw [List.pairwise_append, before]
    simp only [List.pairwise_singleton, List.mem_singleton, forall_eq, true_and]
    exact and_congr_right fun compatible => source_after reached (before.mpr compatible)

theorem dup2All_exec_iff {initial final : Table File} {moves : List Move}
    (distinct : (moves.map Move.target).Nodup) (ran : initial.dup2All moves = some final) :
    (∀ move ∈ moves, final.exec.Open move.target) ↔
      ∀ move ∈ moves, move.source = move.target → initial.exec.Open move.target := by
  induction moves using List.reverseRecOn generalizing final with
  | nil => simp
  | append_singleton moves last ih =>
    obtain ⟨middle, reached, duplicated⟩ := dup2All_append.mp ran
    rw [dup2All_singleton] at duplicated
    obtain ⟨front, fresh⟩ := nodup_snoc distinct
    -- targets are distinct, so the last one still has its first flag
    have untouched : middle last.target = initial last.target := dup2All_frame reached fresh
    have kept : (∀ move ∈ moves, final.exec.Open move.target) ↔
        ∀ move ∈ moves, middle.exec.Open move.target := by
      refine forall₂_congr fun move member => ?_
      simp only [Open, exec, dup2_frame duplicated (fresh move member)]
    have flag : middle.exec.Open last.target ↔ initial.exec.Open last.target := by
      simp only [Open, exec, untouched]
    simp only [List.forall_mem_append, List.forall_mem_singleton]
    rw [kept, ih front reached, dup2_exec_target duplicated, flag]

end Table
end Descriptors
