import BoostProcess.Library.Custody
import BoostProcess.Library.Transition

/-! process_io_binding on POSIX: objects that may own the descriptor they bind.

Numbers are reused, so every open is an instance of its own. Streams, `FILE *` and
descriptors are one constructor here: it stores the number it is given.
-/

set_option autoImplicit false

namespace BoostProcess.V2.Stdio

open Custody

/-- `process_io_binding<Target>` -/
structure IoBinding where
  target : Int
  fd : Int
  needsClosing : Bool
  deriving DecidableEq, Repr

/-- A default constructed binding, and what a move leaves behind. -/
def IoBinding.inherited (target : Int) : IoBinding := ⟨target, target, false⟩

structure World where
  /-- The open instance at each number. -/
  fds : Int → Option Nat
  /-- How many instances have been opened. -/
  opened : Nat
  /-- Instances that a binding opened for itself. -/
  own : List Nat := []
  /-- Instances that a binding closed, the last one first. -/
  closed : List Nat := []
  bindings : Nat → Option IoBinding := fun _ => none

namespace World

def set (world : World) (name : Nat) (binding : Option IoBinding) : World :=
  { world with bindings := Function.update world.bindings name binding }

/-- The kernel hands out a number. -/
def openAt (world : World) (number : Int) : World :=
  { world with fds := Function.update world.fds number (some world.opened), opened := world.opened + 1 }

def openOwn (world : World) (number : Int) : World :=
  { world.openAt number with own := world.opened :: world.own }

/-- `if (fd_needs_closing) ::close(fd);`. Closing a number that is not open fails
without an effect. -/
def closeBy (world : World) (binding : IoBinding) : World :=
  if binding.needsClosing then
    match world.fds binding.fd with
    | some inst =>
      { world with fds := Function.update world.fds binding.fd none, closed := inst :: world.closed }
    | none => world
  else world

/-- The kernel only hands out numbers that are not in use. -/
def Free (world : World) (number : Int) : Prop := 0 ≤ number ∧ world.fds number = none

instance (world : World) (number : Int) : Decidable (world.Free number) :=
  inferInstanceAs (Decidable (_ ∧ _))

end World

/-- What a program does with bindings, and with descriptors of its own in between. -/
inductive Op where
  | inherit (name : Nat) (target : Int)
  | descriptor (name : Nat) (target fd : Int)
  /-- A path or nullptr; open returns -1 when there is no number. -/
  | path (name : Nat) (target : Int) (number : Option Int)
  /-- A pipe whose `kept` end stays in the binding. A failed create_pipe throws. -/
  | pipe (name : Nat) (target kept other : Int) (controlled : Bool)
  | moveConstruct (name source : Nat)
  | moveAssign (name source : Nat)
  | destroy (name : Nat)
  | callerOpen (number : Int)
  | callerClose (number : Int)
  deriving DecidableEq, Repr

/-- Construction, on a name that is not in use. -/
def construct (world : World) (name : Nat) (binding : IoBinding) : Option World :=
  if world.bindings name = none then some (world.set name (some binding)) else none

def step (world : World) : Op → Option World
  | .inherit name target => construct world name (.inherited target)
  | .descriptor name target fd => construct world name ⟨target, fd, false⟩
  | .path name target none => construct world name ⟨target, -1, true⟩
  | .path name target (some number) =>
    if world.Free number then construct (world.openOwn number) name ⟨target, number, true⟩ else none
  | .pipe name target kept other controlled =>
    if world.Free kept ∧ world.Free other ∧ kept ≠ other then
      -- when fcntl fails the constructor returns before it sets fd_needs_closing
      construct ((world.openOwn kept).openAt other) name ⟨target, kept, controlled⟩
    else none
  | .moveConstruct name source =>
    (world.bindings source).bind fun other =>
      -- `fd_needs_closing(other.fd)`: the number, not the flag
      (construct world name ⟨other.target, other.fd, other.fd != 0⟩).map fun next =>
        next.set source (some (.inherited other.target))
  | .moveAssign name source =>
    (world.bindings name).bind fun self =>
      (world.bindings source).bind fun other =>
        if self.target = other.target then
          -- onto itself: closed, copied and reset
          some (((world.closeBy self).set name (some other)).set source (some (.inherited other.target)))
        else none
  | .destroy name =>
    (world.bindings name).map fun self => (world.closeBy self).set name none
  | .callerOpen number => if world.Free number then some (world.openAt number) else none
  | .callerClose number =>
    (world.fds number).bind fun inst =>
      if inst ∈ world.own then none else some { world with fds := Function.update world.fds number none }

end BoostProcess.V2.Stdio
