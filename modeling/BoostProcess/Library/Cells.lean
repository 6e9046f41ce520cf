import Mathlib.Data.List.Basic

/-! Memory areas of a fixed size: what a range of cells holds after writes into it.

Cells are numbered from 0. A range is given by its first cell and the one behind its last.
-/

set_option autoImplicit false

namespace Cells

variable {Value : Type}

/-- The contents of the cells from `first` up to `last`. -/
def window (cells : List Value) (first last : Nat) : List Value := (cells.take last).drop first

/-- Store the values one after the other from a cell on. -/
def storeAll (cells : List Value) (first : Nat) : List Value → List Value
  | [] => cells
  | value :: rest => storeAll (cells.set first value) (first + 1) rest

/-- Copy the cells from `source` on to the cells from `target` on, the first one first.
The ranges may overlap. -/
def moveDown (cells : List Value) (source target : Nat) : Nat → List Value
  | 0 => cells
  | count + 1 =>
    match cells[source]? with
    | some value => moveDown (cells.set target value) (source + 1) (target + 1) count
    | none => cells

variable {cells : List Value} {first middle last index source target count : Nat} {value : Value}

theorem window_getElem? (cells : List Value) (first last index : Nat) :
    (window cells first last)[index]? = if first + index < last then cells[first + index]? else none := by
  unfold window
  rw [List.getElem?_drop, List.getElem?_take]

theorem window_length (inside : last ≤ cells.length) : (window cells first last).length = last - first := by
  unfold window
  rw [List.length_drop, List.length_take]
  omega

@[simp] theorem window_self (cells : List Value) (first : Nat) : window cells first first = [] := by
  unfold window
  rw [List.drop_eq_nil_iff, List.length_take]
  omega

theorem window_append (lower : first ≤ middle) (upper : middle ≤ last) :
    window cells first middle ++ window cells middle last = window cells first last := by
  apply List.ext_getElem?
  intro index
  by_cases inside : middle ≤ cells.length
  · rw [List.getElem?_append, window_length inside, window_getElem?, window_getElem?, window_getElem?]
    by_cases front : index < middle - first
    · rw [if_pos front, if_pos (by omega), if_pos (by omega)]
    · rw [if_neg front]
      have same : middle + (index - (middle - first)) = first + index := by omega
      rw [same]
  · -- behind the end of the area both sides have nothing
    have ends : window cells middle last = [] := by
      unfold window
      rw [List.drop_eq_nil_iff, List.length_take]
      omega
    rw [ends, List.append_nil, window_getElem?, window_getElem?]
    by_cases front : first + index < middle
    · rw [if_pos front, if_pos (by omega)]
    · rw [if_neg front]
      split
      · rw [List.getElem?_eq_none (by omega)]
      · rfl

theorem window_cons (inside : first < last) (bound : last ≤ cells.length) :
    ∃ value, cells[first]? = some value ∧ window cells first last = value :: window cells (first + 1) last := by
  have here : first < cells.length := by omega
  refine ⟨cells[first], List.getElem?_eq_getElem here, ?_⟩
  unfold window
  have front : first < (cells.take last).length := by
    rw [List.length_take]
    omega
  rw [List.drop_eq_getElem_cons front, List.getElem_take]

theorem window_set_outside (outside : index < first ∨ last ≤ index) :
    window (cells.set index value) first last = window cells first last := by
  apply List.ext_getElem?
  intro offset
  rw [window_getElem?, window_getElem?]
  split
  · rw [List.getElem?_set_ne]
    omega
  · rfl

theorem window_snoc (lower : first ≤ last) (inside : last < cells.length) :
    window (cells.set last value) first (last + 1) = window cells first last ++ [value] := by
  rw [← window_append lower (Nat.le_succ last), window_set_outside (.inr (Nat.le_refl last))]
  congr 1
  have bound : last + 1 ≤ (cells.set last value).length := by
    rw [List.length_set]
    exact inside
  obtain ⟨stored, entry, split⟩ := window_cons (Nat.lt_succ_self last) bound
  rw [List.getElem?_set_self inside] at entry
  cases entry
  rw [split, window_self]

@[simp] theorem storeAll_length (cells : List Value) (first : Nat) (values : List Value) :
    (storeAll cells first values).length = cells.length := by
  induction values generalizing cells first with
  | nil => rfl
  | cons value rest ih => rw [storeAll, ih, List.length_set]

theorem window_storeAll {values : List Value} (lower : first ≤ last) (room : last + values.length ≤ cells.length) :
    window (storeAll cells last values) first (last + values.length) = window cells first last ++ values := by
  induction values generalizing cells last with
  | nil => simp [storeAll]
  | cons value rest ih =>
    rw [List.length_cons] at room ⊢
    have stored : window (storeAll (cells.set last value) (last + 1) rest) first (last + 1 + rest.length) =
        window (cells.set last value) first (last + 1) ++ rest :=
      ih (by omega) (by rw [List.length_set]; omega)
    rw [storeAll, show last + (rest.length + 1) = last + 1 + rest.length by omega, stored,
      window_snoc lower (by omega), List.append_assoc]
    rfl

@[simp] theorem moveDown_length (cells : List Value) (source target count : Nat) :
    (moveDown cells source target count).length = cells.length := by
  induction count generalizing cells source target with
  | zero => rfl
  | succ count ih =>
    unfold moveDown
    split
    · rw [ih, List.length_set]
    · rfl

theorem window_moveDown_below (below : last ≤ target) :
    window (moveDown cells source target count) first last = window cells first last := by
  induction count generalizing cells source target with
  | zero => rfl
  | succ count ih =>
    unfold moveDown
    split
    · rw [ih (by omega), window_set_outside (.inr below)]
    · rfl

/-- Copying downwards, each cell is read before it is overwritten. -/
theorem window_moveDown (down : target ≤ source) (inside : source + count ≤ cells.length) :
    window (moveDown cells source target count) target (target + count) = window cells source (source + count) := by
  induction count generalizing cells source target with
  | zero => simp [moveDown]
  | succ count ih =>
    obtain ⟨value, entry, split⟩ := window_cons (show source < source + (count + 1) by omega) inside
    rw [moveDown, entry, split]
    dsimp only
    have rest : window (moveDown (cells.set target value) (source + 1) (target + 1) count) (target + 1) (target + 1 + count) =
        window (cells.set target value) (source + 1) (source + 1 + count) :=
      ih (by omega) (by rw [List.length_set]; omega)
    have front : window (moveDown (cells.set target value) (source + 1) (target + 1) count) target (target + 1) = [value] := by
      rw [window_moveDown_below (Nat.le_refl _), window_snoc (Nat.le_refl _) (by omega), window_self]
      rfl
    rw [← window_append (Nat.le_succ target) (by omega), front,
      show target + (count + 1) = target + 1 + count by omega, rest, window_set_outside (.inl (by omega)),
      show source + 1 + count = source + (count + 1) by omega]
    rfl

end Cells
