import BoostProcess.V2.ErrorCode

/-! basic_pipe on POSIX: the two descriptors and the loops around read and write. -/

set_option autoImplicit false

namespace BoostProcess.V1.Posix

open BoostProcess.V2 (Errno)

/-- `basic_pipe`; -1 stands for a closed end. -/
structure BasicPipe where
  source : Int
  sink : Int
  deriving DecidableEq, Repr

def BasicPipe.isOpen (pipe : BasicPipe) : Bool := pipe.source != -1 || pipe.sink != -1

/-- The loop of `basic_pipe::read` and `basic_pipe::write`, given what the system calls
return: only an interrupted call is made again. -/
def retry : List (Except Errno Nat) → Option (Except Errno Nat)
  | [] => none
  | .ok count :: _ => some (.ok count)
  | .error err :: rest => if err = .EINTR then retry rest else some (.error err)

end BoostProcess.V1.Posix
