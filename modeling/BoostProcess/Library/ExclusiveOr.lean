import Mathlib.Data.BitVec

/-! The exclusive or of a string of words. -/

set_option autoImplicit false

namespace ExclusiveOr

variable {w size : Nat}

/-- All words of a string, combined by exclusive or. -/
def total : List (BitVec w) → BitVec w
  | [] => 0
  | word :: rest => word ^^^ total rest

@[simp] theorem total_nil : total ([] : List (BitVec w)) = 0 := rfl

@[simp] theorem total_cons (word : BitVec w) (rest : List (BitVec w)) : total (word :: rest) = word ^^^ total rest := rfl

@[simp] theorem total_append (first second : List (BitVec w)) : total (first ++ second) = total first ^^^ total second := by
  induction first with
  | nil => simp
  | cons word rest ih => simp [ih, BitVec.xor_assoc]

/-- A function on words that keeps the exclusive or. -/
structure Linear (f : BitVec w → BitVec size) : Prop where
  xor : ∀ first second, f (first ^^^ second) = f first ^^^ f second

theorem Linear.zero {f : BitVec w → BitVec size} (linear : Linear f) : f 0 = 0 := by
  have twice := linear.xor 0 0
  simpa using twice

theorem Linear.total_map {f : BitVec w → BitVec size} (linear : Linear f) (words : List (BitVec w)) :
    total (words.map f) = f (total words) := by
  induction words with
  | nil => exact linear.zero.symm
  | cons word rest ih => rw [List.map_cons, total_cons, ih, total_cons, linear.xor]

end ExclusiveOr
