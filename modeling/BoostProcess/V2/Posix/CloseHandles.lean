import Mathlib.Data.List.Sort
import BoostProcess.Library.Descriptors

/-! Closing every descriptor outside a sorted whitelist.

close_range takes unsigned numbers, so a negative bound is a huge one: a single
negative entry of the whitelist closes everything.
-/

set_option autoImplicit false

namespace BoostProcess.V2.Posix

open Descriptors

variable {File : Type}

/-- Conversion of an `int` argument to `unsigned int`. -/
def toUnsigned (number : Int) : Int := number % 4294967296

def closeRange (first last : Int) (fds : Table File) : Table File :=
  fds.closeRange (toUnsigned first) (toUnsigned last)

/-- The loop over adjacent entries and the call for everything above the last. -/
def closeGaps : List Int → Table File → Table File
  | [], fds => fds
  | [back], fds => closeRange (back + 1) openMax fds
  | mine :: next :: rest, fds =>
    closeGaps (next :: rest)
      (if mine + 1 ≠ next ∧ mine ≠ next then closeRange (mine + 1) (next - 1) fds else fds)

/-- `posix::detail::close_all` where the kernel has close_range. -/
def closeAll (whitelist : List Int) (fds : Table File) : Table File :=
  match whitelist with
  | [] => closeRange 0 openMax fds
  | front :: rest =>
    closeGaps (front :: rest) (if front ≠ 0 then closeRange 0 (front - 1) fds else fds)

/-- `posix::detail::close_all` by fdwalk or /dev/fd: each open descriptor is
looked up in the whitelist. -/
def lookupAll (whitelist : List Int) (fds : Table File) : Table File :=
  fds.retain whitelist

/-- Values of the C type `int`. -/
def IsInt (number : Int) : Prop := -2147483648 ≤ number ∧ number ≤ openMax

instance (number : Int) : Decidable (IsInt number) :=
  inferInstanceAs (Decidable (_ ∧ _))

theorem toUnsigned_of_nonneg {number : Int} (nonneg : 0 ≤ number) (small : number ≤ openMax + 1) :
    toUnsigned number = number := by
  unfold toUnsigned
  unfold openMax at small
  omega

theorem openMax_le_toUnsigned {number : Int} (negative : number < -1) (above : -2147483649 ≤ number) :
    openMax ≤ toUnsigned number := by
  unfold toUnsigned openMax
  omega

theorem closeRange_apply {first last : Int} (fds : Table File) (number : Int)
    (nonneg : 0 ≤ first) (first_le : first ≤ openMax + 1) (last_nonneg : 0 ≤ last) (last_le : last ≤ openMax) :
    closeRange first last fds number = if first ≤ number ∧ number ≤ last then none else fds number := by
  unfold closeRange Table.closeRange
  rw [toUnsigned_of_nonneg nonneg first_le, toUnsigned_of_nonneg last_nonneg (by omega)]

/-- The call between two adjacent entries closes the numbers strictly between
them; entries that are equal or consecutive leave nothing to close. -/
theorem closeGap_apply {mine next number : Int} (fds : Table File) (mine_nonneg : 0 ≤ mine)
    (next_le : next ≤ openMax) (ordered : mine ≤ next) :
    (if mine + 1 ≠ next ∧ mine ≠ next then closeRange (mine + 1) (next - 1) fds else fds) number =
      if mine < number ∧ number < next then none else fds number := by
  split
  · rw [closeRange_apply _ _ (by omega) (by omega) (by omega) (by omega)]
    have same : (mine + 1 ≤ number ∧ number ≤ next - 1) ↔ (mine < number ∧ number < next) := by omega
    simp only [same]
  · rw [if_neg (by omega)]

/-- Above the first entry the gaps close exactly what is not listed. -/
theorem closeGaps_apply {whitelist : List Int} {front : Int} {fds : Table File}
    (sorted : (front :: whitelist).Pairwise (· ≤ ·))
    (bounded : ∀ fd ∈ front :: whitelist, 0 ≤ fd ∧ fd ≤ openMax) {number : Int} (small : number ≤ openMax) :
    closeGaps (front :: whitelist) fds number =
      if number ≤ front ∨ number ∈ front :: whitelist then fds number else none := by
  induction whitelist generalizing front fds with
  | nil =>
    have bound := bounded front List.mem_cons_self
    simp only [closeGaps]
    rw [closeRange_apply _ _ (by omega) (by omega) (by decide) (by decide)]
    by_cases above : front + 1 ≤ number
    · have outside : ¬ (number ≤ front ∨ number = front) := by omega
      simp [above, small, outside]
    · have inside : number ≤ front := by omega
      simp [above, inside]
  | cons next rest ih =>
    obtain ⟨below, tail⟩ := List.pairwise_cons.mp sorted
    have ordered : front ≤ next := below next List.mem_cons_self
    simp only [closeGaps]
    rw [ih tail fun fd member => bounded fd (List.mem_cons_of_mem front member),
      closeGap_apply fds (bounded front List.mem_cons_self).1 (bounded next (by simp)).2 ordered]
    by_cases low : number ≤ front
    · rw [if_pos (Or.inl (by omega)), if_neg (by omega), if_pos (Or.inl low)]
    · by_cases between : number < next
      -- the rest is sorted, so nothing between two entries is listed
      · have unlisted : number ∉ front :: next :: rest := by
          intro member
          rcases List.mem_cons.mp member with rfl | member
          · omega
          · rcases List.mem_cons.mp member with rfl | member
            · omega
            · have := (List.pairwise_cons.mp tail).1 number member
              omega
        rw [if_pos (Or.inl (by omega)), if_pos (by omega), if_neg (by simp only [low, unlisted, or_self, not_false_iff])]
      · have listed : (number ≤ next ∨ number ∈ next :: rest) ↔
            (number ≤ front ∨ number ∈ front :: next :: rest) := by
          have different : number ≠ front := by omega
          have top : number ≤ next ↔ number = next := by omega
          simp only [low, top, List.mem_cons, different, false_or]
          tauto
        rw [if_neg (by omega : ¬ (front < number ∧ number < next))]
        simp only [listed]

/-- For a sorted whitelist without negative entries close_all keeps exactly the
listed descriptors. -/
theorem closeAll_apply {whitelist : List Int} (sorted : whitelist.Pairwise (· ≤ ·))
    (bounded : ∀ fd ∈ whitelist, 0 ≤ fd ∧ fd ≤ openMax) (fds : Table File) {number : Int}
    (nonneg : 0 ≤ number) (small : number ≤ openMax) :
    closeAll whitelist fds number = fds.retain whitelist number := by
  cases whitelist with
  | nil =>
    simp only [closeAll]
    rw [closeRange_apply _ _ (by decide) (by decide) (by decide) (by decide)]
    simp [Table.retain, nonneg, small]
  | cons front rest =>
    have bound := bounded front List.mem_cons_self
    simp only [closeAll]
    rw [closeGaps_apply sorted bounded small]
    have listed : number ∈ front :: rest → front ≤ number := by
      intro member
      rcases List.mem_cons.mp member with rfl | member
      · exact le_refl _
      · exact (List.pairwise_cons.mp sorted).1 number member
    by_cases member : number ∈ front :: rest
    -- the front is the least entry, so the first call spares what is listed
    · have low : ¬ (0 ≤ number ∧ number ≤ front - 1) := by
        have := listed member
        omega
      rw [if_pos (Or.inr member), Table.retain_of_mem _ member]
      split
      · rw [closeRange_apply _ _ (by decide) (by decide) (by omega) (by omega), if_neg low]
      · rfl
    · by_cases low : number ≤ front
      -- below the front the first call closes it, above the front a gap does
      · have different : number ≠ front := fun same => member (same ▸ List.mem_cons_self)
        have positive : front ≠ 0 := by omega
        rw [if_pos (Or.inl low), if_pos positive,
          closeRange_apply _ _ (by decide) (by decide) (by omega) (by omega), if_pos (by omega)]
        simp [Table.retain, member]
      · rw [if_neg (by simp [low, member])]
        simp [Table.retain, member]

theorem closeRange_cases (first last : Int) (fds : Table File) (number : Int) :
    closeRange first last fds number = none ∨ closeRange first last fds number = fds number := by
  unfold closeRange Table.closeRange
  split
  · exact .inl rfl
  · exact .inr rfl

theorem closeGaps_cases (whitelist : List Int) (fds : Table File) (number : Int) :
    closeGaps whitelist fds number = none ∨ closeGaps whitelist fds number = fds number := by
  induction whitelist generalizing fds with
  | nil => exact .inr rfl
  | cons mine rest ih =>
    cases rest with
    | nil => exact closeRange_cases _ _ fds number
    | cons next rest =>
      simp only [closeGaps]
      split
      · rcases ih (closeRange (mine + 1) (next - 1) fds) with closed | same
        · exact .inl closed
        · rw [same]
          exact closeRange_cases _ _ fds number
      · exact ih fds

theorem closeAll_cases (whitelist : List Int) (fds : Table File) (number : Int) :
    closeAll whitelist fds number = none ∨ closeAll whitelist fds number = fds number := by
  cases whitelist with
  | nil => exact closeRange_cases _ _ fds number
  | cons front rest =>
    simp only [closeAll]
    split
    · rcases closeGaps_cases (front :: rest) (closeRange 0 (front - 1) fds) number with closed | same
      · exact .inl closed
      · rw [same]
        exact closeRange_cases _ _ fds number
    · exact closeGaps_cases (front :: rest) fds number

theorem closeGaps_none {whitelist : List Int} {fds : Table File} {number : Int} (closed : fds number = none) :
    closeGaps whitelist fds number = none := by
  rcases closeGaps_cases whitelist fds number with gone | same
  · exact gone
  · rw [same, closed]

/-- With a negative entry in front the first call already closes everything. -/
theorem closeAll_negative {whitelist : List Int} (sorted : whitelist.Pairwise (· ≤ ·))
    (ints : ∀ fd ∈ whitelist, IsInt fd) (negative : ∃ fd ∈ whitelist, fd < 0) (fds : Table File)
    {number : Int} (nonneg : 0 ≤ number) (small : number ≤ openMax) : closeAll whitelist fds number = none := by
  cases whitelist with
  | nil => simp at negative
  | cons front rest =>
    have below : front < 0 := by
      obtain ⟨fd, member, low⟩ := negative
      rcases List.mem_cons.mp member with rfl | member
      · exact low
      · have := (List.pairwise_cons.mp sorted).1 fd member
        omega
    have bound := (ints front List.mem_cons_self).1
    -- the last number to be closed is a negative int, read as unsigned
    have huge : openMax ≤ toUnsigned (front - 1) := openMax_le_toUnsigned (by omega) (by omega)
    simp only [closeAll]
    apply closeGaps_none
    rw [if_pos (by omega), closeRange, Table.closeRange, toUnsigned_of_nonneg (by decide) (by decide),
      if_pos ⟨nonneg, by omega⟩]

end BoostProcess.V2.Posix
