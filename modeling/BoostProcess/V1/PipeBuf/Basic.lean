import BoostProcess.Library.Cells
import BoostProcess.V1.Posix.BasicPipe
import Mathlib.Data.UInt

/-! basic_pipebuf for char: the two buffers and the pointers of the streambuf into them.

A pointer is its offset in the buffer it points into.
-/

set_option autoImplicit false

namespace BoostProcess.V1

open BoostProcess.V2 (Errno)
open Posix (BasicPipe)

/-- `BOOST_PROCESS_PIPE_SIZE` -/
def defaultBufferSize : Nat := 1024

/-- `traits_type::eof()` -/
def eof : Int := -1

def toIntType (c : UInt8) : Int := c.toNat

theorem toIntType_ne_eof (c : UInt8) : toIntType c ≠ eof := by
  unfold toIntType eof
  omega

theorem ofInt_toIntType (c : UInt8) : UInt8.ofInt (toIntType c) = c := by
  have small : ((toIntType c) % 2 ^ 8).toNat = c.toNat := by
    have := c.toNat_lt
    unfold toIntType
    omega
  unfold UInt8.ofInt
  rw [small, UInt8.ofNat_toNat]

structure PipeBuf where
  pipe : BasicPipe
  /-- `_write` -/
  write : List UInt8
  pbase : Nat
  pptr : Nat
  epptr : Nat
  /-- `_read` -/
  read : List UInt8
  eback : Nat
  gptr : Nat
  egptr : Nat
  deriving DecidableEq

namespace PipeBuf

/-- `basic_pipebuf(pipe_type && p)` -/
def ofPipe (pipe : BasicPipe) : PipeBuf where
  pipe := pipe
  write := List.replicate defaultBufferSize 0
  pbase := 0
  pptr := 0
  epptr := defaultBufferSize
  read := List.replicate defaultBufferSize 0
  eback := 0
  gptr := 128
  egptr := 128

/-- The characters in the put area that have not been written. -/
def pending (buf : PipeBuf) : List UInt8 := Cells.window buf.write buf.pbase buf.pptr

/-- The characters in the get area that have not been delivered. -/
def unread (buf : PipeBuf) : List UInt8 := Cells.window buf.read buf.gptr buf.egptr

end PipeBuf
end BoostProcess.V1
