import Mathlib.Data.List.TakeDrop
import BoostProcess.V2.CStringRef
import BoostProcess.V2.ErrorCode

/-! environment::get on Windows: a buffer that is to grow until the value of a variable fits.

The overloads for wchar_t and for char differ in the width of the characters only.
-/

set_option autoImplicit false

namespace BoostProcess.V2.Environment

variable {w : Nat}

/-- The system, as far as get uses it. -/
structure VariableSystem (w : Nat) where
  /-- `GetEnvironmentVariable` for a buffer: what it holds afterwards, and the result. -/
  getEnvironmentVariable : CStringRef w → List (BitVec w) → List (BitVec w) × Nat
  lastError : ErrorCode

/-- `resize` of a string. -/
def resize (buf : List (BitVec w)) (size : Nat) : List (BitVec w) := buf.takeD size 0#w

namespace VariableSystem

/-- The do-while loop: the buffer and the size, or none if there is no fuel left. -/
def getLoop (system : VariableSystem w) (key : CStringRef w) : Nat → List (BitVec w) → Option (List (BitVec w) × Nat)
  | 0, _ => none
  | fuel + 1, buf =>
    let buf := resize buf (buf.length + 4096)
    let (stored, size) := system.getEnvironmentVariable key buf
    if size = buf.length then system.getLoop key fuel stored else some (stored, size)

/-- `get(key, ec)`: the value, and the error if one is assigned. -/
def get (system : VariableSystem w) (fuel : Nat) (key : CStringRef w) : Option (List (BitVec w) × Option ErrorCode) :=
  (system.getLoop key fuel []).map fun (stored, size) =>
    let buf := resize stored size
    (buf, if buf.length = 0 then some system.lastError else none)

/-- What is assumed of GetEnvironmentVariable about a variable: it stores the value if there is
room for it and its terminator, and asks for that much room otherwise. -/
structure Holds (system : VariableSystem w) (key : CStringRef w) (value : List (BitVec w)) : Prop where
  room : ∀ buf, value.length + 1 ≤ buf.length →
    ∃ rest, system.getEnvironmentVariable key buf = (value ++ 0#w :: rest, value.length)
  short : ∀ buf, buf.length < value.length + 1 → (system.getEnvironmentVariable key buf).2 = value.length + 1

/-- get ends and returns the value. -/
def Gets (system : VariableSystem w) (key : CStringRef w) (value : List (BitVec w)) : Prop :=
  ∃ fuel result, system.get fuel key = some result ∧ result.1 = value

/-! ## The loop -/

variable {system : VariableSystem w} {key : CStringRef w} {value : List (BitVec w)}

theorem resize_length (buf : List (BitVec w)) (size : Nat) : (resize buf size).length = size := List.takeD_length ..

/-- Neither of the two results is ever the size of the buffer, so there is one round. -/
theorem getLoop_eq (holds : system.Holds key value) (fuel : Nat) :
    system.getLoop key (fuel + 1) [] = some (system.getEnvironmentVariable key (resize [] 4096)) := by
  have size : (@resize w [] 4096).length = 4096 := resize_length [] 4096
  have left : (system.getEnvironmentVariable key (resize [] 4096)).2 ≠ (@resize w [] 4096).length := by
    by_cases room : value.length + 1 ≤ (@resize w [] 4096).length
    · obtain ⟨rest, stored⟩ := holds.room _ room
      rw [stored]
      exact Nat.ne_of_lt room
    · have short : (@resize w [] 4096).length < value.length + 1 := Nat.not_le.mp room
      rw [holds.short _ short]
      exact Nat.ne_of_gt short
  rw [getLoop]
  exact if_neg left

theorem get_eq (holds : system.Holds key value) (fuel : Nat) :
    (system.get (fuel + 1) key).map Prod.fst =
      some (resize (system.getEnvironmentVariable key (resize [] 4096)).1
        (system.getEnvironmentVariable key (resize [] 4096)).2) := by
  rw [get, getLoop_eq holds]
  rfl

theorem resize_append (front rest : List (BitVec w)) : resize (front ++ rest) front.length = front := List.takeD_left ..

/-- A value with its terminator has room in the first buffer, or what is returned is too long. -/
theorem get_result (holds : system.Holds key value) :
    resize (system.getEnvironmentVariable key (resize [] 4096)).1
      (system.getEnvironmentVariable key (resize [] 4096)).2 = value ↔ value.length < 4096 := by
  have size : (@resize w [] 4096).length = 4096 := resize_length [] 4096
  constructor
  · intro same
    by_contra long
    have asked := holds.short (resize [] 4096) (by omega)
    have length := congrArg List.length same
    rw [resize_length, asked] at length
    omega
  · intro fits
    obtain ⟨rest, stored⟩ := holds.room (resize [] 4096) (by omega)
    rw [stored]
    exact resize_append value (0#w :: rest)

/-- The value is returned if it is shorter than the first buffer. -/
theorem gets_iff (holds : system.Holds key value) : system.Gets key value ↔ value.length < 4096 := by
  rw [← get_result holds]
  constructor
  · intro gets
    obtain ⟨fuel, result, returned, same⟩ := gets
    cases fuel with
    | zero => cases returned
    | succ fuel =>
      have first := get_eq holds fuel
      rw [returned, Option.map_some, Option.some.injEq] at first
      rw [← first, same]
  · intro same
    have first := get_eq holds 0
    obtain ⟨result, returned, value_of⟩ := Option.map_eq_some_iff.mp first
    exact ⟨1, result, returned, value_of.trans same⟩

/-! ## A system with one variable -/

/-- GetEnvironmentVariable for one variable that is set. -/
def single (key : CStringRef w) (value : List (BitVec w)) : VariableSystem w where
  getEnvironmentVariable name buf :=
    if name.text ≠ key.text then (buf, 0)
    else if value.length + 1 ≤ buf.length then (value ++ 0#w :: buf.drop (value.length + 1), value.length)
    else (buf, value.length + 1)
  lastError := ⟨203, .system⟩

theorem single_holds (key : CStringRef w) (value : List (BitVec w)) : (single key value).Holds key value where
  room buf room := by
    exists buf.drop (value.length + 1)
    simp only [single, ne_eq, not_true_eq_false, if_false, if_pos room]
  short buf short := by
    simp only [single, ne_eq, not_true_eq_false, if_false, if_neg (Nat.not_le.mpr short)]

theorem gets_single : (single (CStringRef.ofBlock [65#16]) [66#16]).Gets (CStringRef.ofBlock [65#16]) [66#16] ↔
    [66#16].length < 4096 :=
  gets_iff (single_holds _ _)

/-- A value of 4096 characters is not returned. -/
theorem not_gets_long :
    ¬ (single (CStringRef.ofBlock [65#16]) (List.replicate 4096 66#16)).Gets (CStringRef.ofBlock [65#16])
      (List.replicate 4096 66#16) := by
  intro gets
  obtain ⟨fuel, result, returned, same⟩ := gets
  have holds := single_holds (CStringRef.ofBlock [65#16]) (List.replicate 4096 66#16)
  cases fuel with
  | zero => cases returned
  | succ fuel =>
    have first := get_eq holds fuel
    rw [returned, Option.map_some, Option.some.injEq, same] at first
    have short := (get_result holds).mp first.symm
    rw [List.length_replicate] at short
    exact absurd short (Nat.lt_irrefl 4096)

end VariableSystem
end BoostProcess.V2.Environment
