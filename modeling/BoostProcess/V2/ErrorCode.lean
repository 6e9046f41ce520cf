import Mathlib.Data.Int.Order.Basic

/-! Values of errno and of error_code.

A failed system call reports a positive number. The variable errno itself is an
`int` that no successful call resets, so it is carried through the models as a
number of its own.
-/

set_option autoImplicit false

namespace BoostProcess.V2

/-- The error of a failed system call. -/
structure Errno where
  code : Int
  positive : 0 < code
  deriving DecidableEq, Repr

namespace Errno

def EPERM : Errno := ⟨1, by decide⟩
def ENOENT : Errno := ⟨2, by decide⟩
def ESRCH : Errno := ⟨3, by decide⟩
def EINTR : Errno := ⟨4, by decide⟩
def EBADF : Errno := ⟨9, by decide⟩
def ECHILD : Errno := ⟨10, by decide⟩
def EAGAIN : Errno := ⟨11, by decide⟩

end Errno

inductive Category where
  | system
  | other (name : Nat)
  deriving DecidableEq, Repr

structure ErrorCode where
  value : Int
  category : Category
  deriving DecidableEq, Repr

namespace ErrorCode

/-- A default constructed error_code. -/
def clear : ErrorCode := ⟨0, .system⟩

/-- `error_code(errno, system_category())` -/
def system (errno : Int) : ErrorCode := ⟨errno, .system⟩

/-- Conversion to bool. -/
def failed (ec : ErrorCode) : Bool := ec.value != 0

@[simp] theorem failed_clear : clear.failed = false := rfl

@[simp] theorem failed_system (errno : Int) : (system errno).failed = true ↔ errno ≠ 0 := by
  simp [failed, system]

@[simp] theorem failed_errno (errno : Errno) : (system errno.code).failed = true := by
  have := errno.positive
  simp only [failed_system]
  omega

theorem system_inj {first second : Int} : system first = system second ↔ first = second := by
  simp [system]

end ErrorCode
end BoostProcess.V2
