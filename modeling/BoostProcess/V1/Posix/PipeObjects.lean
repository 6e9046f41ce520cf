import BoostProcess.Library.Holdings
import BoostProcess.V1.Posix.BasicPipe

/-! basic_pipe and async_pipe on POSIX: what their special members do with descriptors.

A stream_descriptor of an async_pipe is its number. To assign to one that is open is an error, and the
reactor may refuse any descriptor. What it does, and what dup and open return, comes with the step.
-/

set_option autoImplicit false

namespace BoostProcess.V1.Posix

inductive End where
  | source
  | sink
  deriving DecidableEq

/-- A `basic_pipe`, or an `async_pipe` with the numbers of its stream_descriptors. -/
structure PipeObject extends BasicPipe where
  async : Bool
  deriving DecidableEq

def PipeObject.fd (pipe : PipeObject) : End → Int
  | .source => pipe.source
  | .sink => pipe.sink

structure PipeWorld where
  /-- The open instance at each number. -/
  fds : Int → Option Nat
  /-- The open file of an instance, which that of its dups is, too. -/
  file : Nat → Nat
  opened : Nat
  /-- Instances that pipes opened or were constructed from. -/
  own : List Nat := []
  /-- Instances that pipes closed, the last one first. -/
  closed : List Nat := []
  pipes : Nat → Option PipeObject := fun _ => none
  /-- The last step has thrown. -/
  threw : Bool := false

namespace PipeWorld

/-- The number in an end of a pipe. -/
def ends (world : PipeWorld) (holder : Nat × End) : Int := ((world.pipes holder.1).map fun pipe => pipe.fd holder.2).getD (-1)

def holdings (world : PipeWorld) : Holdings (Nat × End) := ⟨world.fds, world.opened, world.own, world.closed, world.ends⟩

def set (world : PipeWorld) (name : Nat) (pipe : Option PipeObject) : PipeWorld :=
  { world with pipes := Function.update world.pipes name pipe }

def throws (world : PipeWorld) : PipeWorld := { world with threw := true }

/-- A member returns and leaves a pipe behind, or none. -/
def returns (world : PipeWorld) (name : Nat) (pipe : Option PipeObject) : PipeWorld :=
  { world.set name pipe with threw := false }

def Free (world : PipeWorld) (number : Int) : Prop := 0 ≤ number ∧ world.fds number = none

instance (world : PipeWorld) (number : Int) : Decidable (world.Free number) := inferInstanceAs (Decidable (_ ∧ _))

def openAt (world : PipeWorld) (number : Int) (file : Nat) : PipeWorld :=
  { world with
    fds := Function.update world.fds number (some world.opened)
    file := Function.update world.file world.opened file
    opened := world.opened + 1 }

def openOwn (world : PipeWorld) (number : Int) (file : Nat) : PipeWorld :=
  { world.openAt number file with own := world.opened :: world.own }

/-- `if (fd != -1) ::close(fd);`. Closing a number that is not open fails without an effect. -/
def close (world : PipeWorld) (fd : Int) : PipeWorld :=
  if fd = -1 then world
  else match world.fds fd with
    | some inst => { world with fds := Function.update world.fds fd none, closed := inst :: world.closed }
    | none => world

/-- `::dup(fd)` of an end that is not -1. -/
def dup (world : PipeWorld) (fd : Int) (result : Option Int) : Option (PipeWorld × Option Int) :=
  if fd = -1 then some (world, none)
  else match result with
    | none => some (world, some (-1))
    | some number =>
      (world.fds fd).bind fun inst =>
        if world.Free number then some (world.openOwn number (world.file inst), some number) else none

/-- The dups of the open ends, up to one that fails. -/
def duplicate (world : PipeWorld) (rhs : PipeObject) (first second : Option Int) :
    Option (PipeWorld × Option Int × Option Int) :=
  (world.dup rhs.source first).bind fun (world, source) =>
    if source = some (-1) then some (world, source, none)
    else (world.dup rhs.sink second).map fun (world, sink) => (world, source, sink)

/-- `basic_pipe(const basic_pipe &)` and `async_pipe::operator basic_pipe()` -/
def copyBasic (world : PipeWorld) (name : Nat) (rhs : PipeObject) (first second : Option Int) : Option PipeWorld :=
  (world.duplicate rhs first second).map fun (world, source, sink) =>
    if source = some (-1) ∨ sink = some (-1) then world.throws
    else world.returns name (some ⟨⟨source.getD (-1), sink.getD (-1)⟩, false⟩)

/-- `operator=(const basic_pipe &)`, which stores what dup returns before it looks at it. -/
def copyAssignBasic (world : PipeWorld) (name : Nat) (self rhs : PipeObject) (first second : Option Int) :
    Option PipeWorld :=
  (world.duplicate rhs first second).map fun (world, source, sink) =>
    let world := world.returns name (some ⟨⟨source.getD self.source, sink.getD self.sink⟩, false⟩)
    if source = some (-1) ∨ sink = some (-1) then world.throws else world

/-- `operator=(basic_pipe &&)` -/
def moveAssignBasic (world : PipeWorld) (name source : Nat) (lhs : PipeObject) : PipeWorld :=
  (world.set name (some lhs)).returns source (some { lhs with source := -1, sink := -1 })

/-- Whether the reactor takes what is assigned to the ends of an async_pipe. -/
structure Assigns where
  source : Bool
  sink : Bool
  deriving DecidableEq

def Assigns.both : Assigns := ⟨true, true⟩

/-- `stream_descriptor::assign(fd)` -/
def assign (takes : Bool) (current fd : Int) : Option Int := if current = -1 ∧ takes = true then some fd else none

/-- `_source.assign(source)` and `_sink.assign(sink)` of a constructor; what throws in the second one
destroys the first. -/
def assignBoth (world : PipeWorld) (name : Nat) (assigns : Assigns) (source sink : Int) : PipeWorld :=
  match assign assigns.source (-1) source with
  | none => world.throws
  | some source =>
    match assign assigns.sink (-1) sink with
    | none => (world.close source).throws
    | some sink => world.returns name (some ⟨⟨source, sink⟩, true⟩)

/-- What a constructor does with descriptors that it has opened. -/
def store (world : PipeWorld) (async : Bool) (name : Nat) (assigns : Assigns) (source sink : Int) : PipeWorld :=
  if async then world.assignBoth name assigns source sink else world.returns name (some ⟨⟨source, sink⟩, false⟩)

/-- `async_pipe(const async_pipe &)`, which looks at its own stream_descriptors. -/
def copyAsync (world : PipeWorld) (name : Nat) (assigns : Assigns) : PipeWorld := world.assignBoth name assigns (-1) (-1)

/-- `async_pipe(ios_source, ios_sink, p)` -/
def asyncFromBasic (world : PipeWorld) (name : Nat) (p : PipeObject) (assigns : Assigns) : PipeWorld :=
  world.assignBoth name assigns p.source p.sink

/-- `operator=(const async_pipe &)` -/
def copyAssignAsync (world : PipeWorld) (name : Nat) (self p : PipeObject) (first second : Option Int) (assigns : Assigns) :
    Option PipeWorld :=
  (world.duplicate p first second).map fun (world, source, sink) =>
    if source = some (-1) ∨ sink = some (-1) then world.throws
    else match assign assigns.source self.source (source.getD (-1)) with
      | none => world.throws
      | some source =>
        match assign assigns.sink self.sink (sink.getD (-1)) with
        | none => (world.set name (some { self with source := source })).throws
        | some sink => world.returns name (some ⟨⟨source, sink⟩, true⟩)

/-- `operator=(async_pipe &&)` -/
def moveAssignAsync (world : PipeWorld) (name source : Nat) (self lhs : PipeObject) : PipeWorld :=
  (world.set name (some lhs)).returns source (some self)

/-- `close()`; a basic_pipe starts with the source. -/
def closePipe (world : PipeWorld) (name : Nat) (self : PipeObject) : PipeWorld :=
  let world := if self.async then (world.close self.sink).close self.source else (world.close self.source).close self.sink
  world.returns name (some { self with source := -1, sink := -1 })

def destroy (world : PipeWorld) (name : Nat) (self : PipeObject) : PipeWorld :=
  ((world.close self.sink).close self.source).returns name none

/-- A pipe is constructed from a number that is nobody's. -/
def takeOver (world : PipeWorld) (fd : Int) : Option PipeWorld :=
  if fd = -1 then some world
  else (world.fds fd).bind fun inst => if inst ∈ world.own then none else some { world with own := inst :: world.own }

end PipeWorld

/-- What a program does with pipes, and with descriptors of its own in between. -/
inductive PipeOp where
  /-- The numbers that pipe(2) returns. -/
  | pipe (async : Bool) (name : Nat) (fds : Option (Int × Int)) (assigns : PipeWorld.Assigns)
  /-- A fifo, with what open and dup return. -/
  | named (async : Bool) (name : Nat) (readFd writeFd : Option Int) (assigns : PipeWorld.Assigns)
  | fromHandles (name : Nat) (source sink : Int)
  | copyConstruct (async : Bool) (name source : Nat) (first second : Option Int) (assigns : PipeWorld.Assigns)
  | moveConstruct (async : Bool) (name source : Nat)
  | copyAssign (async : Bool) (name source : Nat) (first second : Option Int) (assigns : PipeWorld.Assigns)
  | moveAssign (async : Bool) (name source : Nat)
  /-- `async_pipe(ios, p)` -/
  | toAsync (name source : Nat) (assigns : PipeWorld.Assigns)
  /-- `operator basic_pipe()` -/
  | toBasic (name source : Nat) (first second : Option Int)
  | close (name : Nat)
  | destroy (name : Nat)
  | callerOpen (number : Int)
  | callerClose (number : Int)
  deriving DecidableEq

namespace PipeWorld

/-- A pipe of the class. -/
def object (world : PipeWorld) (async : Bool) (name : Nat) : Option PipeObject :=
  (world.pipes name).filter (·.async = async)

/-- Constructors, on a name that is not in use. -/
def construct (world : PipeWorld) : PipeOp → Option PipeWorld
  | .pipe _ _ none _ => some world.throws
  | .pipe async name (some (source, sink)) assigns =>
    if world.Free source ∧ world.Free sink ∧ source ≠ sink then
      some (((world.openOwn source world.opened).openOwn sink (world.opened + 1)).store async name assigns source sink)
    else none
  | .named _ _ none _ _ => some world.throws
  | .named async name (some readFd) writeFd assigns =>
    if world.Free readFd then
      ((world.openOwn readFd world.opened).dup readFd writeFd).map fun (world, sink) =>
        if sink = some (-1) then world.throws else world.store async name assigns readFd (sink.getD (-1))
    else none
  | .fromHandles name source sink =>
    (world.takeOver source).bind fun world =>
      (world.takeOver sink).map fun world => world.returns name (some ⟨⟨source, sink⟩, false⟩)
  | .copyConstruct async name source first second assigns =>
    (world.object async source).bind fun rhs =>
      if async then some (world.copyAsync name assigns) else world.copyBasic name rhs first second
  | .moveConstruct async name source =>
    (world.object async source).map fun lhs =>
      (world.set name (some lhs)).returns source (some { lhs with source := -1, sink := -1 })
  | .toAsync name source assigns => (world.object false source).map fun p => world.asyncFromBasic name p assigns
  | .toBasic name source first second =>
    (world.object true source).bind fun p => world.copyBasic name p first second
  | _ => none

/-- The pipe that an operation constructs. -/
def constructed : PipeOp → Option Nat
  | .pipe _ name _ _ | .named _ name _ _ _ | .fromHandles name _ _ | .copyConstruct _ name _ _ _ _
  | .moveConstruct _ name _ | .toAsync name _ _ | .toBasic name _ _ _ => some name
  | _ => none

def step (world : PipeWorld) (op : PipeOp) : Option PipeWorld :=
  match constructed op with
  | some name => if world.pipes name = none then world.construct op else none
  | none =>
    match op with
    | .copyAssign async name source first second assigns =>
      (world.object async name).bind fun self =>
        (world.object async source).bind fun rhs =>
          if async then world.copyAssignAsync name self rhs first second assigns
          else world.copyAssignBasic name self rhs first second
    | .moveAssign async name source =>
      (world.object async name).bind fun self =>
        (world.object async source).map fun lhs =>
          if async then world.moveAssignAsync name source self lhs else world.moveAssignBasic name source lhs
    | .close name => (world.pipes name).map fun self => world.closePipe name self
    | .destroy name => (world.pipes name).map fun self => world.destroy name self
    | .callerOpen number => if world.Free number then some (world.openAt number world.opened) else none
    | .callerClose number =>
      (world.fds number).bind fun inst =>
        if inst ∈ world.own then none else some { world with fds := Function.update world.fds number none }
    | _ => none

end PipeWorld
end BoostProcess.V1.Posix
