import Mathlib.Data.Int.Order.Basic

/-! Native exit codes on POSIX: the status word of waitpid and its reading. -/

set_option autoImplicit false

namespace BoostProcess.V2

/-- `status & 0x7f`, also of a negative int. -/
def wTermSig (status : Int) : Int := status % 128

def wIfExited (status : Int) : Bool := wTermSig status == 0

/-- `((signed char)((status & 0x7f) + 1) >> 1) > 0`: neither 0 nor 0x7f. -/
def wIfSignaled (status : Int) : Bool := 0 < wTermSig status && wTermSig status < 127

/-- `(status & 0xff00) >> 8` -/
def wExitStatus (status : Int) : Int := status % 65536 / 256

def processIsRunning (code : Int) : Bool := !wIfExited code && !wIfSignaled code

def evaluateExitCode (code : Int) : Int :=
  if wIfExited code then wExitStatus code else if wIfSignaled code then wTermSig code else code

-- Reads as stopped by a signal, which waitpid reports only with WUNTRACED.
def stillActive : Int := 0x17f

/-- Only the low bits 0x7f, which no ended process reports, mean running. -/
theorem processIsRunning_iff (code : Int) : processIsRunning code = true ↔ code % 128 = 127 := by
  unfold processIsRunning wIfExited wIfSignaled wTermSig
  simp only [Bool.and_eq_true, Bool.not_eq_true', beq_eq_false_iff_ne, ne_eq, Bool.and_eq_false_iff,
    decide_eq_false_iff_not]
  omega

/-- What waitpid reports of a process that ended. -/
structure ExitStatus where
  status : Int
  ended : processIsRunning status = false
  deriving DecidableEq

end BoostProcess.V2
