import Mathlib.Data.List.TakeWhile
import Mathlib.Data.BitVec

/-! basic_cstring_ref: a pointer to a string that ends with a terminator.

The reference stores no length, so each operation runs up to the terminator. Nothing behind
the terminator is read.
-/

set_option autoImplicit false

namespace BoostProcess.V2

variable {w : Nat}

structure CStringRef (w : Nat) where
  /-- The characters in front of the terminator. -/
  text : List (BitVec w)
  free : 0#w ∉ text

namespace CStringRef

/-- What can be read from `view_` on. -/
def view (s : CStringRef w) : List (BitVec w) := s.text ++ [0#w]

/-- The reference to what a block holds in front of its first terminator. -/
def ofBlock (block : List (BitVec w)) : CStringRef w where
  text := block.takeWhile (· ≠ 0#w)
  free member := by simpa using List.mem_takeWhile_imp member

/-- `substr(pos)`, which only moves the pointer. -/
def substr (s : CStringRef w) (pos : Nat) : CStringRef w where
  text := s.text.drop pos
  free member := s.free (List.mem_of_mem_drop member)

/-- The loop of `find` from a pointer on. -/
def findFrom (ch : BitVec w) : List (BitVec w) → Option Nat
  | [] => none
  | c :: rest => if c = 0#w then none else if c = ch then some 0 else (findFrom ch rest).map (· + 1)

def find (s : CStringRef w) (ch : BitVec w) (pos : Nat) : Option Nat :=
  (findFrom ch (s.view.drop pos)).map (pos + ·)

/-- The loop of `compare`, whose index is an unsigned int. Where it has been through all of its
values it is 0 again, and the loop never ends. -/
def compareFrom (idx : Nat) : List (BitVec w) → List (BitVec w) → Option Int
  | x :: xs, y :: ys =>
    if x ≠ 0#w ∧ y ≠ 0#w then
      if x ≠ y then some (if x < y then -1 else 1)
      else if idx + 1 = 2 ^ 32 then none
      else compareFrom (idx + 1) xs ys
    else some (x.toNat - y.toNat)
  | _, _ => none

def compare (l r : CStringRef w) : Option Int := compareFrom 0 l.view r.view

/-- The loop of `operator==`, with an index that is large enough. -/
def equalFrom : List (BitVec w) → List (BitVec w) → Bool
  | x :: xs, y :: ys =>
    if x ≠ 0#w ∧ y ≠ 0#w then
      if x ≠ y then false else equalFrom xs ys
    else x = y
  | _, _ => false

def equal (l r : CStringRef w) : Bool := equalFrom l.view r.view

/-! ## What the loops find -/

theorem ofBlock_text {block : List (BitVec w)} (free : 0#w ∉ block) : (ofBlock block).text = block := by
  rw [ofBlock, List.takeWhile_eq_self_iff]
  intro c member
  rw [decide_eq_true_iff]
  exact fun same => free (same ▸ member)

theorem findFrom_cases (ch : BitVec w) {text : List (BitVec w)} (free : 0#w ∉ text) :
    (findFrom ch (text ++ [0#w]) = none ∧ ch ∉ text) ∨
      ∃ front rest, text = front ++ ch :: rest ∧ ch ∉ front ∧ findFrom ch (text ++ [0#w]) = some front.length := by
  induction text with
  | nil => exact .inl ⟨by simp [findFrom], List.not_mem_nil⟩
  | cons c text ih =>
    have char : c ≠ 0#w := (List.ne_of_not_mem_cons free).symm
    by_cases here : c = ch
    · subst here
      exact .inr ⟨[], text, rfl, List.not_mem_nil, by simp [findFrom, char]⟩
    · rcases ih (List.not_mem_of_not_mem_cons free) with ⟨none_found, absent⟩ | ⟨front, rest, rfl, first, found⟩
      · exact .inl ⟨by simp [findFrom, char, here, none_found], List.not_mem_cons_of_ne_of_not_mem (Ne.symm here) absent⟩
      · refine .inr ⟨c :: front, rest, rfl, List.not_mem_cons_of_ne_of_not_mem (Ne.symm here) first, ?_⟩
        rw [List.cons_append, findFrom, if_neg char, if_neg here, found]
        rfl

/-- The first position of a character from some position on, if it is there. -/
theorem find_cases (s : CStringRef w) (ch : BitVec w) {pos : Nat} (inside : pos ≤ s.text.length) :
    (s.find ch pos = none ∧ ch ∉ s.text.drop pos) ∨
      ∃ front rest, s.text.drop pos = front ++ ch :: rest ∧ ch ∉ front ∧ s.find ch pos = some (pos + front.length) := by
  have pointer : s.view.drop pos = s.text.drop pos ++ [0#w] := List.drop_append_of_le_length inside
  rw [find, pointer]
  rcases findFrom_cases ch (s.substr pos).free with ⟨none_found, absent⟩ | ⟨front, rest, split, first, found⟩
  · exact .inl ⟨by rw [show s.text.drop pos = (s.substr pos).text from rfl, none_found]; rfl, absent⟩
  · refine .inr ⟨front, rest, split, first, ?_⟩
    rw [show s.text.drop pos = (s.substr pos).text from rfl, found]
    rfl

/-- Two references compare as 0 when their texts are the same and short enough for the index. -/
theorem compareFrom_eq_zero_iff {idx : Nat} (small : idx < 2 ^ 32) {first second : List (BitVec w)} (free_first : 0#w ∉ first)
    (free_second : 0#w ∉ second) :
    compareFrom idx (first ++ [0#w]) (second ++ [0#w]) = some 0 ↔ first = second ∧ idx + first.length < 2 ^ 32 := by
  induction first generalizing idx second with
  | nil =>
    cases second with
    | nil => simpa [compareFrom] using small
    | cons y ys =>
      have char : y ≠ 0#w := (List.ne_of_not_mem_cons free_second).symm
      have not_zero : y.toNat ≠ 0 := fun zero => char (BitVec.eq_of_toNat_eq zero)
      simp [compareFrom, not_zero]
  | cons x xs ih =>
    have char : x ≠ 0#w := (List.ne_of_not_mem_cons free_first).symm
    cases second with
    | nil =>
      have not_zero : x.toNat ≠ 0 := fun zero => char (BitVec.eq_of_toNat_eq zero)
      simp [compareFrom, not_zero]
    | cons y ys =>
      have other : y ≠ 0#w := (List.ne_of_not_mem_cons free_second).symm
      simp only [List.cons_append, compareFrom, ne_eq, char, other, not_false_eq_true, and_self, if_true]
      by_cases same : x = y
      · subst same
        by_cases last : idx + 1 = 2 ^ 32
        · have long : ¬idx + (xs.length + 1) < 2 ^ 32 := by omega
          simp only [not_true_eq_false, if_false, last, if_true, List.length_cons, long, and_false, reduceCtorEq]
        · have later := @ih (idx + 1) (by omega) ys (List.not_mem_of_not_mem_cons free_first)
            (List.not_mem_of_not_mem_cons free_second)
          simp only [not_true_eq_false, if_false, last, later, List.cons.injEq, true_and, List.length_cons]
          rw [Nat.add_assoc, Nat.add_comm 1]
      · by_cases less : x < y <;> simp [same, less]

theorem compare_eq_zero_iff (l r : CStringRef w) : l.compare r = some 0 ↔ l.text = r.text ∧ l.text.length < 2 ^ 32 := by
  have loop := @compareFrom_eq_zero_iff w 0 (by decide) l.text r.text l.free r.free
  simpa [compare, view] using loop

theorem equalFrom_iff {first second : List (BitVec w)} (free_first : 0#w ∉ first) (free_second : 0#w ∉ second) :
    equalFrom (first ++ [0#w]) (second ++ [0#w]) = true ↔ first = second := by
  induction first generalizing second with
  | nil =>
    cases second with
    | nil => simp [equalFrom]
    | cons y ys =>
      have char : y ≠ 0#w := (List.ne_of_not_mem_cons free_second).symm
      simp [equalFrom, char.symm]
  | cons x xs ih =>
    have char : x ≠ 0#w := (List.ne_of_not_mem_cons free_first).symm
    cases second with
    | nil => simp [equalFrom, char]
    | cons y ys =>
      have other : y ≠ 0#w := (List.ne_of_not_mem_cons free_second).symm
      have later := @ih ys (List.not_mem_of_not_mem_cons free_first)
        (List.not_mem_of_not_mem_cons free_second)
      by_cases same : x = y
      · simp [equalFrom, same, other, later]
      · simp [equalFrom, same, char, other]

theorem equal_iff (l r : CStringRef w) : l.equal r = true ↔ l.text = r.text := equalFrom_iff l.free r.free

end CStringRef
end BoostProcess.V2
