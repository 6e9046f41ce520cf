import Mathlib.Data.UInt

/-! The values of plain char.

A char is kept as its eight bits. Whether it has a sign is the choice of the
implementation, and only matters once it is promoted to int.
-/

set_option autoImplicit false

namespace BoostProcess.V2

/-- Integral promotion of a char. -/
def promote (isSigned : Bool) (char : UInt8) : Int :=
  if isSigned = true ∧ 128 ≤ char.toNat then (char.toNat : Int) - 256 else char.toNat

def eof : Int := -1

theorem promote_eq_eof {isSigned : Bool} {char : UInt8} :
    promote isSigned char = eof ↔ isSigned = true ∧ char = 0xff := by
  have := char.toNat_lt
  rw [← UInt8.toNat_inj]
  unfold promote eof
  change _ ↔ _ ∧ char.toNat = 255
  split
  · rename_i negative
    simp only [negative.1, true_and]
    omega
  · rename_i positive
    rw [not_and] at positive
    constructor
    · omega
    · rintro ⟨sign, same⟩
      exact absurd (positive sign) (by omega)

theorem promote_eq_zero {isSigned : Bool} {char : UInt8} : promote isSigned char = 0 ↔ char = 0 := by
  have := char.toNat_lt
  rw [← UInt8.toNat_inj]
  unfold promote
  change _ ↔ char.toNat = 0
  split <;> omega

end BoostProcess.V2
