import Mathlib.Logic.Function.Basic

/-! Custody of resources: which holder holds which resource, and what acquiring,
releasing and transferring do to it.

A holder holds at most one resource; custody is exclusive when no resource has two
holders. Transfer leaves its source empty, also when source and target are one.
-/

set_option autoImplicit false

namespace Custody

variable {Holder Resource : Type} [DecidableEq Holder]

def Exclusive (custody : Holder → Option Resource) : Prop :=
  ∀ first second resource, custody first = some resource → custody second = some resource → first = second

def Held (custody : Holder → Option Resource) (resource : Resource) : Prop :=
  ∃ holder, custody holder = some resource

def acquire (custody : Holder → Option Resource) (holder : Holder) (resource : Resource) :
    Holder → Option Resource :=
  Function.update custody holder (some resource)

def release (custody : Holder → Option Resource) (holder : Holder) : Holder → Option Resource :=
  Function.update custody holder none

/-- The target gets what the source holds and the source ends up empty. What the
target held before is no longer held. -/
def transfer (custody : Holder → Option Resource) (source target : Holder) : Holder → Option Resource :=
  Function.update (Function.update custody target (custody source)) source none

variable {custody : Holder → Option Resource} {holder source target : Holder} {resource held : Resource}

theorem of_release {other : Holder} (entry : release custody holder other = some resource) :
    custody other = some resource := by
  unfold release at entry
  rw [Function.update_apply] at entry
  split at entry
  · cases entry
  · exact entry

theorem exclusive_release (exclusive : Exclusive custody) : Exclusive (release custody holder) :=
  fun first second resource left right => exclusive first second resource (of_release left) (of_release right)

theorem exclusive_acquire (exclusive : Exclusive custody) (fresh : ¬ Held custody resource) :
    Exclusive (acquire custody holder resource) := by
  intro first second shared left right
  unfold acquire at left right
  rw [Function.update_apply] at left right
  split at left
  · rename_i here
    split at right
    · rename_i there
      rw [here, there]
    · cases left
      exact absurd ⟨second, right⟩ fresh
  · split at right
    · cases right
      exact absurd ⟨first, left⟩ fresh
    · exact exclusive first second shared left right

theorem exclusive_transfer (exclusive : Exclusive custody) : Exclusive (transfer custody source target) := by
  intro first second shared left right
  -- every holder but the source holds what the target or it held before
  have origin (holder : Holder) (entry : transfer custody source target holder = some shared) :
      holder ≠ source ∧ (holder = target ∧ custody source = some shared ∨
        holder ≠ target ∧ custody holder = some shared) := by
    unfold transfer at entry
    rw [Function.update_apply] at entry
    split at entry
    · cases entry
    · rename_i elsewhere
      rw [Function.update_apply] at entry
      split at entry
      · rename_i here
        exact ⟨elsewhere, .inl ⟨here, entry⟩⟩
      · rename_i other
        exact ⟨elsewhere, .inr ⟨other, entry⟩⟩
  obtain ⟨leftSource, ⟨leftHere, leftEntry⟩ | ⟨leftOther, leftEntry⟩⟩ := origin first left
  · obtain ⟨rightSource, ⟨rightHere, -⟩ | ⟨-, rightEntry⟩⟩ := origin second right
    · rw [leftHere, rightHere]
    · exact absurd (exclusive second source shared rightEntry leftEntry) rightSource
  · obtain ⟨rightSource, ⟨-, rightEntry⟩ | ⟨-, rightEntry⟩⟩ := origin second right
    · exact absurd (exclusive first source shared leftEntry rightEntry) leftSource
    · exact exclusive first second shared leftEntry rightEntry

theorem held_release_iff (exclusive : Exclusive custody) :
    Held (release custody holder) resource ↔ Held custody resource ∧ custody holder ≠ some resource := by
  unfold Held release
  constructor
  · rintro ⟨other, entry⟩
    rw [Function.update_apply] at entry
    split at entry
    · cases entry
    · rename_i distinct
      exact ⟨⟨other, entry⟩, fun here => distinct (exclusive other holder resource entry here)⟩
  · rintro ⟨⟨other, entry⟩, elsewhere⟩
    refine ⟨other, ?_⟩
    rw [Function.update_of_ne]
    · exact entry
    · intro same
      rw [same] at entry
      exact elsewhere entry

theorem held_acquire_iff (empty : custody holder = none) :
    Held (acquire custody holder resource) held ↔ held = resource ∨ Held custody held := by
  unfold Held acquire
  constructor
  · rintro ⟨other, entry⟩
    rw [Function.update_apply] at entry
    split at entry
    · exact .inl (Option.some.inj entry).symm
    · exact .inr ⟨other, entry⟩
  · rintro (rfl | ⟨other, entry⟩)
    · exact ⟨holder, by simp⟩
    · refine ⟨other, ?_⟩
      rw [Function.update_of_ne]
      · exact entry
      · intro same
        rw [same, empty] at entry
        cases entry

/-- Transfer between two holders loses nothing but what the target held. -/
theorem held_transfer_iff (exclusive : Exclusive custody) (distinct : source ≠ target) :
    Held (transfer custody source target) resource ↔ Held custody resource ∧ custody target ≠ some resource := by
  unfold Held transfer
  constructor
  · rintro ⟨other, entry⟩
    rw [Function.update_apply] at entry
    split at entry
    · cases entry
    · rw [Function.update_apply] at entry
      split at entry
      · refine ⟨⟨source, entry⟩, fun here => distinct (exclusive source target resource entry here)⟩
      · rename_i elsewhere
        exact ⟨⟨other, entry⟩, fun here => elsewhere (exclusive other target resource entry here)⟩
  · rintro ⟨⟨other, entry⟩, elsewhere⟩
    -- what the source held is found at the target, everything else where it was
    by_cases moved : other = source
    · refine ⟨target, ?_⟩
      rw [Function.update_of_ne distinct.symm, Function.update_self, ← moved]
      exact entry
    · refine ⟨other, ?_⟩
      rw [Function.update_of_ne moved, Function.update_of_ne]
      · exact entry
      · intro same
        rw [same] at entry
        exact elsewhere entry

theorem transfer_self : transfer custody source source = release custody source := by
  simp [transfer, release]

theorem held_after_release (exclusive : Exclusive custody) (held : Held custody resource) :
    Held (release custody holder) resource ∨ custody holder = some resource := by
  by_cases here : custody holder = some resource
  · exact .inr here
  · exact .inl ((held_release_iff exclusive).mpr ⟨held, here⟩)

/-- Only what the target held can get lost, also in a transfer from a holder to itself. -/
theorem held_after_transfer (exclusive : Exclusive custody) (held : Held custody resource) :
    Held (transfer custody source target) resource ∨ custody target = some resource := by
  by_cases same : source = target
  · rw [same, transfer_self]
    exact held_after_release exclusive held
  · by_cases here : custody target = some resource
    · exact .inr here
    · exact .inl ((held_transfer_iff exclusive same).mpr ⟨held, here⟩)

theorem exclusive_update {value : Option Resource} (exclusive : Exclusive custody)
    (fresh : ∀ resource, value = some resource → ¬ Held custody resource) :
    Exclusive (Function.update custody holder value) := by
  cases value with
  | none => exact exclusive_release exclusive
  | some resource => exact exclusive_acquire exclusive (fresh resource rfl)

theorem held_update {value : Option Resource} (empty : custody holder = none) (held : Held custody resource) :
    Held (Function.update custody holder value) resource := by
  obtain ⟨other, entry⟩ := held
  refine ⟨other, ?_⟩
  rw [Function.update_of_ne]
  · exact entry
  · rintro rfl
    rw [empty] at entry
    cases entry

end Custody
