import BoostProcess.Library.Transition
import BoostProcess.V1.Posix.ErrorChannel

/-! executor::invoke with fork: what the parent reports of a launch, and what becomes of the child.

The child writes the errors of its handlers to a pipe and goes on to execve. The parent reads one
error or the end of the pipe. The steps of the two are in any order.
-/

set_option autoImplicit false

namespace BoostProcess.V1.Posix

open Transition

/-- The number of an error. -/
structure Failure where
  code : BitVec 32
  nonzero : code ≠ 0#32
  deriving DecidableEq

/-- A call of `set_error` with an error. -/
structure RaisedError where
  ec : Failure
  msg : List UInt8
  deriving DecidableEq

/-- The initializers of a launch, by what they do, and the results of its system calls. -/
structure Launch where
  hasErrorHandler : Bool
  /-- The failure of pipe(2) or fcntl(2). -/
  pipe : Option Failure
  onSetup : List RaisedError
  fork : Option Failure
  onExecSetup : List RaisedError
  /-- What execve returns, if it does. -/
  execve : Option Failure
  onExecError : List RaisedError
  onSuccess : List RaisedError
  /-- SIGPIPE is ignored. -/
  ignoresPipe : Bool
  deriving DecidableEq

/-- The two calls of write in `write_error` and in `_write_error`. -/
def Sender.writes (sender : Sender) (code : BitVec 32) (msg : List UInt8) : List (List UInt8) :=
  [(sender.write code msg).take 8, (sender.write code msg).drop 8]

def RaisedError.writes (error : RaisedError) : List (List UInt8) := Sender.setError.writes error.ec.code error.msg

def execFailed : List UInt8 := "execve failed".toList.map fun c => UInt8.ofNat c.toNat

namespace Launch

/-- What the child writes up to execve. -/
def setupWrites (launch : Launch) : List (List UInt8) := launch.onExecSetup.flatMap RaisedError.writes

/-- What the child writes behind a failed execve. -/
def failedWrites (launch : Launch) (ec : Failure) : List (List UInt8) :=
  launch.onExecError.flatMap RaisedError.writes ++ Sender.failedExec.writes ec.code execFailed

end Launch

inductive ForkedChild where
  /-- On the way to execve. -/
  | setup (ahead : List (List UInt8))
  /-- On the way from a failed execve to `_exit`. -/
  | failed (ahead : List (List UInt8))
  | replaced
  | ended (replaced : Bool)
  | reaped (replaced : Bool)
  deriving DecidableEq

namespace ForkedChild

/-- A child of the image that was forked, which has the sink of the pipe. -/
def holdsSink : ForkedChild → Bool
  | setup _ | failed _ => true
  | _ => false

/-- It has not ended. -/
def lives : ForkedChild → Bool
  | setup _ | failed _ | replaced => true
  | ended _ | reaped _ => false

def isReplaced : ForkedChild → Bool
  | replaced => true
  | ended image | reaped image => image
  | _ => false

end ForkedChild

inductive Parent where
  | start
  /-- Behind fork, still with the sink of the pipe. -/
  | forked
  /-- In the first read of `_read_error`. -/
  | readsHeader
  | readsMessage (code size : BitVec 32)
  /-- With an error in `_ec`. -/
  | reaps
  | succeeds
  /-- Back, or thrown, with or without an error. -/
  | returned (reports : Bool)
  deriving DecidableEq

/-- The pipe_guard lives until the parent is behind `_read_error`. -/
def Parent.holdsSource : Parent → Bool
  | start | forked | readsHeader | readsMessage _ _ => true
  | _ => false

structure LaunchState where
  parent : Parent
  child : Option ForkedChild
  pipe : List UInt8
  deriving DecidableEq

inductive LaunchEvent where
  | parent
  | child
  /-- The new image ends. -/
  | imageEnds
  deriving DecidableEq

namespace Launch

variable (launch : Launch)

def start : LaunchState := ⟨.start, none, []⟩

/-- `invoke` up to fork. Without an error handler, set_error throws; with one, on_error gets `_ec`,
but not behind pipe(2) and fcntl(2). Behind fork only an error handler reports. -/
def invoke (state : LaunchState) : LaunchState :=
  if launch.pipe.isSome then { state with parent := .returned (!launch.hasErrorHandler) }
  else if launch.onSetup ≠ [] then { state with parent := .returned true }
  else if launch.fork.isSome then { state with parent := .returned launch.hasErrorHandler }
  else { state with parent := .forked, child := some (.setup launch.setupWrites) }

/-- No process has the sink of the pipe. -/
def atEnd (state : LaunchState) : Bool := !(state.child.any ForkedChild.holdsSink)

/-- `_read_error`, a read at a time. A negative size throws from the constructor of the message. -/
def readHeader (state : LaunchState) : Option LaunchState :=
  if state.pipe ≠ [] then
    let data := state.pipe.take 8
    let size := bytesInt ((data.drop 4).take 4)
    some { state with
      parent := if size.toInt < 0 then .returned true else .readsMessage (bytesInt (data.take 4)) size,
      pipe := state.pipe.drop 8 }
  else if atEnd state then some { state with parent := .succeeds }
  else none

def readMessage (state : LaunchState) (code size : BitVec 32) : Option LaunchState :=
  if state.pipe ≠ [] ∨ atEnd state ∨ size = 0#32 then
    some { state with
      parent := if launch.hasErrorHandler then if code ≠ 0#32 then .reaps else .succeeds else .returned true,
      pipe := state.pipe.drop size.toNat }
  else none

/-- `waitpid(this->pid, nullptr, WNOHANG)`, and then on_error. -/
def reap (state : LaunchState) : LaunchState :=
  { state with
    parent := .returned true
    child := state.child.map fun child =>
      match child with
      | .ended replaced => .reaped replaced
      | child => child }

/-- on_success. Where an initializer raises an error, `child::~child` kills and reaps the child. -/
def succeed (state : LaunchState) : LaunchState :=
  if launch.onSuccess = [] then { state with parent := .returned false }
  else { state with parent := .returned true, child := state.child.map fun child => .reaped child.isReplaced }

def parentStep (state : LaunchState) : Option LaunchState :=
  match state.parent with
  | .start => some (launch.invoke state)
  | .forked => some { state with parent := .readsHeader }
  | .readsHeader => readHeader state
  | .readsMessage code size => launch.readMessage state code size
  | .reaps => some (reap state)
  | .succeeds => some (launch.succeed state)
  | .returned _ => none

/-- One write of the child; without a reader it is the end, unless there is nothing to write or
SIGPIPE is ignored. -/
def write (state : LaunchState) (bytes : List UInt8) (next : ForkedChild) : LaunchState :=
  if state.parent.holdsSource then { state with pipe := state.pipe ++ bytes, child := some next }
  else if bytes = [] ∨ launch.ignoresPipe then { state with child := some next }
  else { state with child := some (.ended false) }

def childStep (state : LaunchState) : Option LaunchState :=
  match state.child with
  | some (.setup (bytes :: rest)) => some (launch.write state bytes (.setup rest))
  | some (.setup []) =>
    match launch.execve with
    | none => some { state with child := some .replaced }
    | some ec => some { state with child := some (.failed (launch.failedWrites ec)) }
  | some (.failed (bytes :: rest)) => some (launch.write state bytes (.failed rest))
  | some (.failed []) => some { state with child := some (.ended false) }
  | _ => none

def step (state : LaunchState) : LaunchEvent → Option LaunchState
  | .parent => launch.parentStep state
  | .child => launch.childStep state
  | .imageEnds => if state.child = some .replaced then some { state with child := some (.ended true) } else none

end Launch

namespace LaunchState

/-- Once the parent is back: it reports exactly if the child, when that is past execve, does not
have a new image; and with a report behind fork the child is reaped. -/
def Agrees (state : LaunchState) : Prop :=
  ∀ reports, state.parent = .returned reports →
    (Launch.atEnd state = true → (reports = true ↔ state.child.any ForkedChild.isReplaced = false)) ∧
      (reports = true → ∀ child, state.child = some child → ∃ replaced, child = .reaped replaced)

/-- The parent calls waitpid only when the child has ended. -/
def WaitsForEnd (state : LaunchState) (event : LaunchEvent) : Prop :=
  event = .parent → state.parent = .reaps → ∃ replaced, state.child = some (.ended replaced)

end LaunchState

/-! ## What the child writes -/

/-- The size in the header. -/
def Sender.size : Sender → List UInt8 → BitVec 32
  | setError, msg => BitVec.ofNat 32 (cString msg).length + 1#32
  | failedExec, msg => BitVec.ofNat 32 msg.length

theorem Sender.writes_eq (sender : Sender) (code : BitVec 32) (msg : List UInt8) :
    ∃ payload, sender.writes code msg = [intBytes code ++ intBytes (sender.size msg), payload] := by
  have header (payload : List UInt8) : (intBytes code ++ intBytes (sender.size msg) ++ payload).take 8 =
      intBytes code ++ intBytes (sender.size msg) := List.take_left' (by simp)
  refine ⟨(sender.write code msg).drop 8, ?_⟩
  unfold Sender.writes
  cases sender with
  | setError => exact congrArg (· :: _) (header _)
  | failedExec => exact congrArg (· :: _) (header _)

namespace Launch

variable {launch : Launch}

/-- Everything the child writes if execve fails. -/
def chunks (launch : Launch) (ec : Failure) : List (List UInt8) := launch.setupWrites ++ launch.failedWrites ec

theorem flatMap_writes_eq {errors : List RaisedError} (raised : errors ≠ []) :
    ∃ error ∈ errors, ∃ rest, errors.flatMap RaisedError.writes =
      (intBytes error.ec.code ++ intBytes (Sender.setError.size error.msg)) :: rest := by
  cases errors with
  | nil => exact absurd rfl raised
  | cons error later =>
    obtain ⟨payload, writes⟩ := Sender.setError.writes_eq error.ec.code error.msg
    refine ⟨error, List.mem_cons_self, payload :: later.flatMap RaisedError.writes, ?_⟩
    rw [List.flatMap_cons, RaisedError.writes, writes]
    rfl

theorem failedWrites_eq (launch : Launch) (ec : Failure) :
    ∃ code size rest, code ≠ 0#32 ∧ launch.failedWrites ec = (intBytes code ++ intBytes size) :: rest := by
  unfold failedWrites
  by_cases raised : launch.onExecError = []
  · obtain ⟨payload, writes⟩ := Sender.failedExec.writes_eq ec.code execFailed
    rw [raised, List.flatMap_nil, List.nil_append, writes]
    exact ⟨_, _, _, ec.nonzero, rfl⟩
  · obtain ⟨error, -, rest, writes⟩ := flatMap_writes_eq raised
    rw [writes]
    exact ⟨_, _, _, error.ec.nonzero, rfl⟩

theorem failedWrites_length (launch : Launch) (ec : Failure) : 8 < (launch.failedWrites ec).flatten.length := by
  have whole : (Sender.failedExec.writes ec.code execFailed).flatten = writeExecError ec.code execFailed := by
    simp [Sender.writes, Sender.write]
  have message : execFailed.length = 13 := by decide
  have last : (writeExecError ec.code execFailed).length = 21 := by
    simp only [writeExecError, List.length_append, intBytes_length, message]
  rw [failedWrites, List.flatten_append, List.length_append, whole, last]
  omega

/-! ## A schedule that leaves the child unreaped -/

/-- Some writes of the child in a row, while the parent has the source. -/
theorem run_writes {parent : Parent} {next : List (List UInt8) → ForkedChild} (reads : parent.holdsSource = true)
    (writes : ∀ bytes rest pipe, launch.childStep ⟨parent, some (next (bytes :: rest)), pipe⟩ =
      some (launch.write ⟨parent, some (next (bytes :: rest)), pipe⟩ bytes (next rest)))
    (ahead : List (List UInt8)) (pipe : List UInt8) :
    run launch.step ⟨parent, some (next ahead), pipe⟩ (List.replicate ahead.length .child) =
      some ⟨parent, some (next []), pipe ++ ahead.flatten⟩ := by
  induction ahead generalizing pipe with
  | nil => simp [run]
  | cons bytes rest ih =>
    apply run_cons.mpr
    refine ⟨⟨parent, some (next rest), pipe ++ bytes⟩, ?_, ?_⟩
    · change launch.childStep _ = _
      rw [writes]
      unfold write
      rw [if_pos reads]
    · rw [List.flatten_cons, ← List.append_assoc]
      exact ih (pipe ++ bytes)

/-- An error that the parent can read in full is reported; a child that has not ended stays. -/
theorem run_report {child : ForkedChild} {code size : BitVec 32} {rest : List UInt8} (nonzero : code ≠ 0#32)
    (lives : ∀ replaced, child ≠ .ended replaced) (readable : rest ≠ [] ∨ child.holdsSink = false) :
    ∃ schedule pipe, run launch.step ⟨.forked, some child, intBytes code ++ intBytes size ++ rest⟩ schedule =
      some ⟨.returned true, some child, pipe⟩ := by
  have header : (intBytes code ++ intBytes size).length = 8 := by simp
  have first : (intBytes code ++ intBytes size ++ rest).take 8 = intBytes code ++ intBytes size :=
    List.take_left' header
  have behind : (intBytes code ++ intBytes size ++ rest).drop 8 = rest := List.drop_left' header
  have filled : intBytes code ++ intBytes size ++ rest ≠ [] := by
    intro empty
    have := congrArg List.length empty
    simp at this
  have closes : launch.step ⟨.forked, some child, intBytes code ++ intBytes size ++ rest⟩ .parent =
      some ⟨.readsHeader, some child, intBytes code ++ intBytes size ++ rest⟩ := rfl
  have reads : launch.step ⟨.readsHeader, some child, intBytes code ++ intBytes size ++ rest⟩ .parent =
      some ⟨if size.toInt < 0 then .returned true else .readsMessage code size, some child, rest⟩ := by
    simp only [step, parentStep, readHeader]
    rw [if_pos filled, first, behind, List.take_left' (intBytes_length code), List.drop_left' (intBytes_length code),
      List.take_of_length_le (intBytes_length size).le, bytesInt_intBytes, bytesInt_intBytes]
  by_cases negative : size.toInt < 0
  · rw [if_pos negative] at reads
    exact ⟨[.parent, .parent], rest, run_cons.mpr ⟨_, closes, run_cons.mpr ⟨_, reads, rfl⟩⟩⟩
  · rw [if_neg negative] at reads
    have message : launch.step ⟨.readsMessage code size, some child, rest⟩ .parent =
        some ⟨if launch.hasErrorHandler then .reaps else .returned true, some child, rest.drop size.toNat⟩ := by
      change launch.readMessage _ code size = _
      unfold readMessage
      rw [if_pos (readable.imp_right fun silent => .inl (by simp [atEnd, silent])), if_pos nonzero]
    cases handler : launch.hasErrorHandler with
    | false =>
      rw [handler] at message
      exact ⟨[.parent, .parent, .parent], _,
        run_cons.mpr ⟨_, closes, run_cons.mpr ⟨_, reads, run_cons.mpr ⟨_, message, rfl⟩⟩⟩⟩
    | true =>
      rw [handler] at message
      have reaps : launch.step ⟨.reaps, some child, rest.drop size.toNat⟩ .parent =
          some ⟨.returned true, some child, rest.drop size.toNat⟩ := by
        change some (reap _) = _
        unfold reap
        cases child with
        | ended replaced => exact absurd rfl (lives replaced)
        | _ => rfl
      exact ⟨[.parent, .parent, .parent, .parent], _,
        run_cons.mpr ⟨_, closes, run_cons.mpr ⟨_, reads, run_cons.mpr ⟨_, message, run_cons.mpr ⟨_, reaps, rfl⟩⟩⟩⟩⟩

/-- With an error behind fork the parent can be back before the child ends. -/
theorem exists_unreaped (piped : launch.pipe = none) (prepared : launch.onSetup = []) (forked : launch.fork = none)
    (fails : launch.onExecSetup ≠ [] ∨ launch.execve ≠ none) :
    ∃ schedule final, run launch.step start schedule = some final ∧ ¬ final.Agrees := by
  have unreaped {schedule : List LaunchEvent} {child : ForkedChild} {pipe : List UInt8}
      (reached : run launch.step start schedule = some ⟨.returned true, some child, pipe⟩)
      (lives : ∀ replaced, child ≠ .reaped replaced) :
      ∃ schedule final, run launch.step start schedule = some final ∧ ¬ final.Agrees := by
    refine ⟨schedule, _, reached, fun agrees => ?_⟩
    obtain ⟨replaced, reaped⟩ := (agrees true rfl).2 rfl child rfl
    exact lives replaced reaped
  have forks : launch.step start .parent = some ⟨.forked, some (.setup launch.setupWrites), []⟩ := by
    simp [step, parentStep, start, invoke, piped, prepared, forked]
  have setup := @run_writes launch .forked .setup rfl (fun _ _ _ => rfl) launch.setupWrites []
  rw [List.nil_append] at setup
  cases exec : launch.execve with
  | none =>
    -- the child has its new image before the parent reads
    have replaces : launch.step ⟨.forked, some (.setup []), launch.setupWrites.flatten⟩ .child =
        some ⟨.forked, some .replaced, launch.setupWrites.flatten⟩ := by
      simp [step, childStep, exec]
    obtain ⟨error, -, rest, writes⟩ := flatMap_writes_eq (fails.resolve_right fun failed => failed exec)
    have stream : launch.setupWrites.flatten =
        intBytes error.ec.code ++ intBytes (Sender.setError.size error.msg) ++ rest.flatten := by
      unfold setupWrites
      rw [writes, List.flatten_cons]
    obtain ⟨schedule, pipe, reported⟩ := @run_report launch .replaced error.ec.code
      (Sender.setError.size error.msg) rest.flatten error.ec.nonzero (fun _ => nofun) (.inr rfl)
    rw [← stream] at reported
    exact unreaped (run_cons.mpr ⟨_, forks, run_append setup (run_cons.mpr ⟨_, replaces, reported⟩)⟩) fun _ => nofun
  | some ec =>
    -- the child has written everything and not called _exit
    have returns : launch.step ⟨.forked, some (.setup []), launch.setupWrites.flatten⟩ .child =
        some ⟨.forked, some (.failed (launch.failedWrites ec)), launch.setupWrites.flatten⟩ := by
      simp [step, childStep, exec]
    have failed := @run_writes launch .forked .failed rfl (fun _ _ _ => rfl) (launch.failedWrites ec)
      launch.setupWrites.flatten
    have first : ∃ code size rest, code ≠ 0#32 ∧
        launch.setupWrites ++ launch.failedWrites ec = (intBytes code ++ intBytes size) :: rest := by
      by_cases raised : launch.onExecSetup = []
      · rw [setupWrites, raised, List.flatMap_nil, List.nil_append]
        exact failedWrites_eq launch ec
      · obtain ⟨error, -, rest, writes⟩ := flatMap_writes_eq raised
        rw [setupWrites, writes]
        exact ⟨_, _, _, error.ec.nonzero, rfl⟩
    obtain ⟨code, size, rest, nonzero, writes⟩ := first
    have stream : launch.setupWrites.flatten ++ (launch.failedWrites ec).flatten =
        intBytes code ++ intBytes size ++ rest.flatten :=
      List.flatten_append.symm.trans (congrArg List.flatten writes)
    have long : rest.flatten ≠ [] := by
      intro empty
      have lengths := congrArg List.length stream
      have written := failedWrites_length launch ec
      simp only [empty, List.length_append, intBytes_length, List.length_nil] at lengths
      omega
    obtain ⟨schedule, pipe, reported⟩ :=
      @run_report launch (.failed []) code size rest.flatten nonzero (fun _ => nofun) (.inl long)
    rw [← stream] at reported
    exact unreaped (run_cons.mpr ⟨_, forks, run_append setup (run_cons.mpr ⟨_, returns, run_append failed reported⟩)⟩)
      fun _ => nofun

end Launch
end BoostProcess.V1.Posix
