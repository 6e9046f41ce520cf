import BoostProcess.Library.Transition
import BoostProcess.V2.Process.BasicProcess

/-! async_wait on one live object: the operations are started, woken and completed in any
order, together with running, wait, the end of the child and what asio delivers.

A wait on the signal set or the descriptor completes once, with the error_code that asio
gives it; the handler runs later. One step runs one handler.
-/

set_option autoImplicit false

namespace BoostProcess.V2.Process.AsyncWait

inductive Flavour where
  | signal
  | fd
  | fdOrSignal (descriptorOpen : Bool)
  deriving DecidableEq

inductive Source where
  | signals
  | descriptor
  deriving DecidableEq

/-- Where an operation is: asio waits for it, has its handler queued, has been asked to
dispatch its completion, or has called the caller's handler. -/
inductive Phase where
  | waiting (source : Source)
  | woken (ec : ErrorCode)
  | finishing (ec : ErrorCode)
  /-- A status was stored when the operation started. -/
  | completer (code : Int)
  | done
  deriving DecidableEq

/-- `async_wait_op_`: the copy of `pid_`, and whether the caller cancelled it. -/
structure Operation where
  handle : Handle
  phase : Phase
  cancelled : Bool := false

structure Completion where
  name : Nat
  ec : ErrorCode
  exitCode : Int
  cancelled : Bool
  deriving DecidableEq

structure State where
  flavour : Flavour
  sys : Sys
  process : BasicProcess
  ops : Nat → Option Operation := fun _ => none
  /-- The last completion first. -/
  completed : List Completion := []

/-- `net::error::operation_aborted` -/
def aborted : ErrorCode := .system 125

/-- `net::error::bad_descriptor` -/
def badDescriptor : ErrorCode := .system Errno.EBADF.code

namespace State

def setPhase (state : State) (name : Nat) (op : Operation) (phase : Phase) : State :=
  { state with ops := Function.update state.ops name (some { op with phase := phase }) }

/-- The state after a call to waitpid that may write to `exit_code`. -/
def waited (state : State) (outcome : Sys × WaitResult) : State :=
  match outcome.2 with
  | .reaped status => { state with sys := outcome.1, process := { state.process with exitStatus := status } }
  | _ => { state with sys := outcome.1 }

/-- The poll that the operations have in common: `wait_res`, if it is 0 and ec is clear, means
to wait again. The signal flavour does not poll with an error. -/
def poll (state : State) (handle : Handle) (ec : ErrorCode) (polls : Bool) : State × ErrorCode × Bool :=
  if handle.pid ≤ 0 then (state, badDescriptor, false)
  else if polls = true ∧ processIsRunning state.process.exitStatus = true then
    let outcome := state.sys.waitNoHang handle.pid handle.child
    match outcome.2 with
    | .failed errno => (state.waited outcome, .system errno.code, false)
    | .running => (state.waited outcome, ec, !ec.failed)
    | .reaped _ => (state.waited outcome, ec, false)
  else (state, ec, false)

/-- A wait that starts. A signal may have come before and completes it at once. -/
def await (state : State) (name : Nat) (op : Operation) (source : Source) (signalled : Bool) : State :=
  state.setPhase name op (if signalled = true ∧ source = .signals then .woken .clear else .waiting source)

/-- Poll, then wait again or dispatch the completion. -/
def enter (state : State) (name : Nat) (op : Operation) (ec : ErrorCode) (polls : Bool) (source : Source)
    (signalled : Bool) : State :=
  let polled := state.poll op.handle ec polls
  if polled.2.2 then polled.1.await name op source signalled
  else polled.1.setPhase name op (.finishing polled.2.1)

/-- All waits on the signal set complete: it is cancelled, or a signal comes. -/
def wakeSignals (state : State) (ec : ErrorCode) : State :=
  { state with ops := fun name => (state.ops name).map fun op =>
      if op.phase = .waiting .signals then { op with phase := .woken ec } else op }

/-- `handle.async_wait(res, self)` -/
def handleWait (state : State) (name : Nat) (op : Operation) (signalled : Bool) : State :=
  let op := { op with handle := state.process.handle }
  match state.flavour with
  | .signal =>
    -- `handle.cancel()`, to end up on the executor of the signal set
    (state.await name op .signals signalled).wakeSignals aborted
  | .fd => state.enter name op .clear true .descriptor signalled
  | .fdOrSignal descriptorOpen =>
    state.enter name op .clear true (if descriptorOpen then .descriptor else .signals) signalled

def complete (state : State) (name : Nat) (op : Operation) (ec : ErrorCode) (code : Int) : State :=
  { state.setPhase name op .done with completed := ⟨name, ec, evaluateExitCode code, op.cancelled⟩ :: state.completed }

/-- `basic_process::async_wait_op_::operator()(self, ec)` -/
def completion (state : State) (name : Nat) (op : Operation) (ec : ErrorCode) (signalled : Bool) : State :=
  if ec.failed = false ∧ processIsRunning state.process.exitStatus = true then state.handleWait name op signalled
  else state.complete name op ec state.process.exitStatus

/-- The fd flavour waits for the child that the descriptor reports. -/
def waitBlocking (state : State) (handle : Handle) (ec : ErrorCode) (answer : Answer) : State × ErrorCode :=
  if ec.failed = false ∧ processIsRunning state.process.exitStatus = true then
    let outcome := state.sys.waitFor handle.pid handle.child answer.status (0 < answer.interrupts)
    match outcome.2 with
    | .failed errno => (state.waited outcome, .system errno.code)
    | _ => (state.waited outcome, ec)
  else (state, ec)

/-- The handler of a wait that has completed with ec. -/
def wake (state : State) (name : Nat) (op : Operation) (ec : ErrorCode) (signalled : Bool) (answer : Answer) : State :=
  match state.flavour with
  | .signal =>
    let ec := if ec = aborted ∧ op.cancelled = false then .clear else ec
    state.enter name op ec (!ec.failed) .signals signalled
  | .fd =>
    let waited := state.waitBlocking op.handle ec answer
    waited.1.completion name op waited.2 signalled
  | .fdOrSignal descriptorOpen =>
    state.enter name op ec true (if descriptorOpen then .descriptor else .signals) signalled

/-- `basic_process::async_wait_op_::operator()(self)` -/
def start (state : State) (name : Nat) (signalled : Bool) : State :=
  if processIsRunning state.process.exitStatus = false then
    state.setPhase name ⟨state.process.handle, .done, false⟩ (.completer state.process.exitStatus)
  else state.handleWait name ⟨state.process.handle, .done, false⟩ signalled

/-- The caller cancels an operation that has not completed. -/
def cancel (state : State) (name : Nat) (op : Operation) : State :=
  match op.phase with
  | .waiting _ => state.setPhase name { op with cancelled := true } (.woken aborted)
  | phase => state.setPhase name { op with cancelled := true } phase

end State

inductive Event where
  | start (name : Nat) (signalled : Bool)
  | running (ec : ErrorCode)
  | wait (ec : ErrorCode) (answer : Answer)
  | cancel (name : Nat)
  /-- SIGCHLD, on account of whatever child. -/
  | deliver
  | ready (name : Nat)
  | wake (name : Nat) (signalled : Bool) (answer : Answer)
  | finish (name : Nat) (signalled : Bool)
  | exit (pid : Int) (status : ExitStatus)
  | appear (pid : Int) (own : Bool)
  /-- A process of somebody else ends; nobody else waits for ours. -/
  | vanish (pid : Int)

def step (state : State) : Event → Option State
  | .start name signalled =>
    match state.ops name with
    | none => some (state.start name signalled)
    | some _ => none
  | .running ec =>
    let used := state.process.running state.sys ec
    some { state with sys := used.sys, process := used.process }
  | .wait ec answer =>
    let used := state.process.wait state.sys ec answer
    some { state with sys := used.sys, process := used.process }
  | .cancel name => do
    let op ← state.ops name
    if op.phase = .done then none else some (state.cancel name op)
  | .deliver => some (state.wakeSignals .clear)
  | .ready name => do
    let op ← state.ops name
    if op.phase = .waiting .descriptor ∧ state.sys.runs op.handle = false then
      some (state.setPhase name op (.woken .clear))
    else none
  | .wake name signalled answer => do
    let op ← state.ops name
    match op.phase with
    | .woken ec => some (state.wake name op ec signalled answer)
    | _ => none
  | .finish name signalled => do
    let op ← state.ops name
    match op.phase with
    | .finishing ec => some (state.completion name op ec signalled)
    | .completer code => some (state.complete name op .clear code)
    | _ => none
  | .exit pid status =>
    match state.sys.procs pid with
    | some ⟨child, true, none⟩ => some { state with sys := state.sys.ended pid child status }
    | _ => none
  | .appear pid own =>
    if state.sys.Free pid then some { state with sys := state.sys.spawn pid own } else none
  | .vanish pid =>
    match state.sys.procs pid with
    | some ⟨_, false, _⟩ => some { state with sys := state.sys.remove pid }
    | _ => none

/-- What one step can do, and when. -/
inductive Steps (state : State) : Event → State → Prop where
  | start {name : Nat} {signalled : Bool} (unused : state.ops name = none) :
    Steps state (.start name signalled) (state.start name signalled)
  | running {ec : ErrorCode} :
    Steps state (.running ec) { state with
      sys := (state.process.running state.sys ec).sys
      process := (state.process.running state.sys ec).process }
  | wait {ec : ErrorCode} {answer : Answer} :
    Steps state (.wait ec answer) { state with
      sys := (state.process.wait state.sys ec answer).sys
      process := (state.process.wait state.sys ec answer).process }
  | cancel {name : Nat} {op : Operation} (entry : state.ops name = some op) (unfinished : op.phase ≠ .done) :
    Steps state (.cancel name) (state.cancel name op)
  | deliver : Steps state .deliver (state.wakeSignals .clear)
  | ready {name : Nat} {op : Operation} (entry : state.ops name = some op) (waits : op.phase = .waiting .descriptor)
      (ended : state.sys.runs op.handle = false) :
    Steps state (.ready name) (state.setPhase name op (.woken .clear))
  | wake {name : Nat} {signalled : Bool} {answer : Answer} {op : Operation} {ec : ErrorCode}
      (entry : state.ops name = some op) (woken : op.phase = .woken ec) :
    Steps state (.wake name signalled answer) (state.wake name op ec signalled answer)
  | finish {name : Nat} {signalled : Bool} {op : Operation} {ec : ErrorCode} (entry : state.ops name = some op)
      (finishing : op.phase = .finishing ec) :
    Steps state (.finish name signalled) (state.completion name op ec signalled)
  | complete {name : Nat} {signalled : Bool} {op : Operation} {code : Int} (entry : state.ops name = some op)
      (completer : op.phase = .completer code) :
    Steps state (.finish name signalled) (state.complete name op .clear code)
  | exit {pid : Int} {status : ExitStatus} {child : Nat} (there : state.sys.procs pid = some ⟨child, true, none⟩) :
    Steps state (.exit pid status) { state with sys := state.sys.ended pid child status }
  | appear {pid : Int} {own : Bool} (free : state.sys.Free pid) :
    Steps state (.appear pid own) { state with sys := state.sys.spawn pid own }
  | vanish {pid : Int} {child : Nat} {exited : Option ExitStatus}
      (there : state.sys.procs pid = some ⟨child, false, exited⟩) :
    Steps state (.vanish pid) { state with sys := state.sys.remove pid }

theorem step_cases {state next : State} {event : Event} (taken : step state event = some next) :
    Steps state event next := by
  cases event with
  | start name signalled =>
    simp only [step] at taken
    split at taken
    · rename_i unused
      cases taken
      exact .start unused
    · cases taken
  | running ec =>
    cases taken
    exact .running
  | wait ec answer =>
    cases taken
    exact .wait
  | cancel name =>
    obtain ⟨op, entry, taken⟩ := Option.bind_eq_some_iff.mp taken
    split at taken
    · cases taken
    · rename_i unfinished
      cases taken
      exact .cancel entry unfinished
  | deliver =>
    cases taken
    exact .deliver
  | ready name =>
    obtain ⟨op, entry, taken⟩ := Option.bind_eq_some_iff.mp taken
    split at taken
    · rename_i guard
      cases taken
      exact .ready entry guard.1 guard.2
    · cases taken
  | wake name signalled answer =>
    obtain ⟨op, entry, taken⟩ := Option.bind_eq_some_iff.mp taken
    split at taken
    · rename_i ec woken
      cases taken
      exact .wake entry woken
    · cases taken
  | finish name signalled =>
    obtain ⟨op, entry, taken⟩ := Option.bind_eq_some_iff.mp taken
    split at taken
    · rename_i ec finishing
      cases taken
      exact .finish entry finishing
    · rename_i code completer
      cases taken
      exact .complete entry completer
    · cases taken
  | exit pid status =>
    simp only [step] at taken
    split at taken
    · rename_i child there
      cases taken
      exact .exit there
    · cases taken
  | appear pid own =>
    simp only [step] at taken
    split at taken
    · rename_i free
      cases taken
      exact .appear free
    · cases taken
  | vanish pid =>
    simp only [step] at taken
    split at taken
    · rename_i child exited there
      cases taken
      exact .vanish there
    · cases taken

end BoostProcess.V2.Process.AsyncWait
