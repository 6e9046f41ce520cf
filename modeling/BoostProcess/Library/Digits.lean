import Mathlib.Algebra.Order.Group.Nat
import Mathlib.Tactic.Ring

/-! Numbers as a leading part followed by digits of one base, most significant first.

The leading part may be of any size. A fixed number of digits is taken off the end
of a number, zeros included, so the digits determine the number and the other way round.
-/

set_option autoImplicit false

namespace Digits

variable {base : Nat}

/-- The number with the given digits behind its leading part. -/
def value (base leading : Nat) : List Nat → Nat
  | [] => leading
  | digit :: rest => value base (leading * base + digit) rest

/-- The last digits of a number, as many as asked for. -/
def expand (base number : Nat) : Nat → List Nat
  | 0 => []
  | count + 1 => number / base ^ count % base :: expand base number count

@[simp] theorem expand_length (number count : Nat) : (expand base number count).length = count := by
  induction count with
  | zero => rfl
  | succ count ih => simp [expand, ih]

theorem value_expand (number count : Nat) :
    value base (number / base ^ count) (expand base number count) = number := by
  induction count with
  | zero => simp [value, expand]
  | succ count ih =>
    -- the first digit puts the leading part back to what the shorter expansion has
    have joined : number / base ^ (count + 1) * base + number / base ^ count % base = number / base ^ count := by
      rw [pow_succ, ← Nat.div_div_eq_div_mul]
      exact Nat.div_add_mod' _ _
    simp only [expand, value, joined, ih]

theorem le_value (leading : Nat) (digits : List Nat) : leading * base ^ digits.length ≤ value base leading digits := by
  induction digits generalizing leading with
  | nil => simp [value]
  | cons digit rest ih =>
    calc leading * base ^ (rest.length + 1) = leading * base * base ^ rest.length := by ring
      _ ≤ (leading * base + digit) * base ^ rest.length := Nat.mul_le_mul_right _ (Nat.le_add_right _ _)
      _ ≤ value base (leading * base + digit) rest := ih _

theorem value_lt {digits : List Nat} (small : ∀ digit ∈ digits, digit < base) (leading : Nat) :
    value base leading digits < (leading + 1) * base ^ digits.length := by
  induction digits generalizing leading with
  | nil => simp [value]
  | cons digit rest ih =>
    have first : digit < base := small digit List.mem_cons_self
    calc value base (leading * base + digit) rest
        < (leading * base + digit + 1) * base ^ rest.length :=
          ih (fun other member => small other (List.mem_cons_of_mem _ member)) _
      _ ≤ (leading + 1) * base * base ^ rest.length := by
          refine Nat.mul_le_mul_right _ ?_
          rw [Nat.add_mul]
          omega
      _ = (leading + 1) * base ^ (rest.length + 1) := by ring

theorem value_div {digits : List Nat} (small : ∀ digit ∈ digits, digit < base) (leading : Nat) :
    value base leading digits / base ^ digits.length = leading :=
  Nat.div_eq_of_lt_le (le_value leading digits) (value_lt small leading)

theorem expand_value {digits : List Nat} (small : ∀ digit ∈ digits, digit < base) (leading : Nat) :
    expand base (value base leading digits) digits.length = digits := by
  induction digits generalizing leading with
  | nil => rfl
  | cons digit rest ih =>
    have tail : ∀ other ∈ rest, other < base := fun other member => small other (List.mem_cons_of_mem _ member)
    simp only [List.length_cons, expand, value, value_div tail, ih tail, List.cons.injEq, and_true]
    rw [Nat.mul_add_mod_self_right, Nat.mod_eq_of_lt (small digit List.mem_cons_self)]

end Digits
