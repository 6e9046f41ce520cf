import BoostProcess.Library.Processes
import BoostProcess.V2.Posix.Whitelist

/-! The second pipe of pipe_fork_launcher, which async_wait of the process waits on.

A run starts right after fork. The child, what it forks, and the parent take their steps in
any order: the launcher's parent closes its write ends and reads the error pipe, the child
sets up and calls execve, the processes do with their descriptors what they want, and the
parent waits. A pipe is at its end when nobody has its write end, the parent itself included.
-/

set_option autoImplicit false

namespace BoostProcess.V2.Posix.LifetimePipe

open Descriptors Processes

/-- A launch whose fork has succeeded. -/
structure Forked where
  launch : Launch
  self : Launcher
  pipe : Pipe
  waitPipe : Pipe
  /-- The second pipe was opened while the first was open. -/
  apart : waitPipe.write ≠ pipe.read

namespace Forked
variable (forked : Forked)

/-- The descriptors of the parent behind fork. -/
def parentFds : Table File :=
  withWaitPipe forked.waitPipe (withErrorPipe forked.pipe (openedFds forked.launch.fds))

/-- The descriptors of the child before on_exec_setup. -/
def fds : Table File :=
  (PipeForkLauncher.forkedChild forked.launch forked.pipe forked.waitPipe forked.launch.prepared).fds

def result : ChildResult :=
  PipeForkLauncher.childResult forked.launch forked.pipe forked.waitPipe forked.self

/-- The table with which execve is called has the write end of the second pipe, and not as
close-on-exec. The launcher itself sets that flag and never clears it. -/
def Kept : Prop :=
  ∀ child, forked.result = .replaced child → ∃ number, child.fds number = some ⟨.waitWrite, false⟩

end Forked

inductive Stage where
  | forked
  | executed
  /-- The child has reported an error and exits. -/
  | failed
  deriving DecidableEq

/-- The parent of the fork in operator(). -/
inductive Parent where
  | forked
  /-- Its write ends are closed, and it is in the loop around read. -/
  | reading
  | failed
  /-- There is a process, with the read end of the second pipe as its descriptor. -/
  | returned
  deriving DecidableEq

/-- `async_wait_op_`: in the wait on the descriptor, with its handler queued, in the call of
waitpid without WNOHANG, completed. -/
inductive Phase where
  | waiting
  | woken (ec : ErrorCode)
  | blocked
  | completed (ec : ErrorCode)
  deriving DecidableEq

/-- The child is process 0; the others are forked by it and by each other. -/
structure State where
  stage : Stage := .forked
  parent : Parent := .forked
  /-- The descriptors of the parent. -/
  own : Table File
  procs : Procs File
  /-- The status of the child between its end and waitpid. -/
  zombie : Option Int := none
  /-- What is in the error pipe, and how much is in the second one. -/
  word : Option Int := none
  written : Nat := 0
  /-- The exit status of the process object, none as long as `process_is_running(exit_code)`. -/
  exitCode : Option Int := none
  ops : Nat → Option Phase := fun _ => none

namespace State
variable (state : State)

def initial (forked : Forked) : State where
  own := forked.parentFds
  procs pid := if pid = 0 then some forked.fds else none

/-- The pipe with this write end is at its end. -/
def AtEof (writeEnd : File) : Prop := ¬Has state.own writeEnd ∧ ¬Held state.procs writeEnd

/-- The wait descriptor is readable: something was written, or its pipe is at its end. -/
def Readable : Prop := 0 < state.written ∨ state.AtEof .waitWrite

/-- Behind the loop around read: the guards close the read ends that are left to them. -/
def finish (forked : Forked) (ec : ErrorCode) : State :=
  { state with
    parent := if ec.failed then .failed else .returned
    own :=
      if ec.failed then (state.own.close forked.waitPipe.read).close forked.pipe.read
      else state.own.close forked.pipe.read }

def setPhase (name : Nat) (phase : Phase) : State := { state with ops := Function.update state.ops name (some phase) }

/-- `waitpid(pid, &exit_code, ...)` when the child is not running. -/
def collect : ErrorCode × State :=
  match state.zombie with
  | some status => (.clear, { state with zombie := none, exitCode := some status })
  | none => (.system Errno.ECHILD.code, state)

/-- `async_wait_op_::operator()(self)` -/
def asyncWait (name : Nat) : State :=
  if state.exitCode.isSome then state.setPhase name (.completed .clear)
  -- waitpid with WNOHANG returns 0
  else if (state.procs 0).isSome then state.setPhase name .waiting
  else state.collect.2.setPhase name (.completed state.collect.1)

/-- `async_wait_op_::operator()(self, ec, int)` -/
def handle (name : Nat) (ec : ErrorCode) : State :=
  if ec.failed then state.setPhase name (.completed ec)
  else if state.exitCode.isSome then state.setPhase name (.completed ec)
  else if (state.procs 0).isSome then state.setPhase name .blocked
  else state.collect.2.setPhase name (.completed state.collect.1)

end State

inductive Label where
  | closeWriteEnds
  | childExec
  | childFails
  | childExits (status : Int)
  | move (move : Move)
  | write (pid : Nat) (number : Int)
  | launcherRead
  | asyncWait (name : Nat)
  /-- asio finds the descriptor readable. -/
  | deliver (name : Nat)
  /-- asio is told to cancel the wait, and completes it with operation_aborted. -/
  | abort (name : Nat)
  | handle (name : Nat)
  | unblock (name : Nat)
  /-- running() or wait() of the process object gets the status. -/
  | collect
  deriving DecidableEq

/-- The EXIT_FAILURE of a child that was not replaced, as a wait status. -/
def exitFailure : Int := 256

/-- The steps of all parties. -/
inductive Step (forked : Forked) : State → Label → State → Prop where
  | closeWriteEnds {state : State} (waits : state.parent = .forked) :
    Step forked state .closeWriteEnds { state with
      parent := .reading
      own := (state.own.close forked.pipe.write).close forked.waitPipe.write }
  | childExec {state : State} {child : Child} (prepares : state.stage = .forked) (replaced : forked.result = .replaced child) :
    Step forked state .childExec { state with
      stage := .executed
      procs := Function.update state.procs 0 (some child.fds.exec) }
  | childFails {state : State} {ec : ErrorCode} (prepares : state.stage = .forked) (failure : forked.result.error = some ec) :
    Step forked state .childFails { state with
      stage := .failed
      procs := Function.update state.procs 0 none
      zombie := some exitFailure
      word := forked.result.report forked.pipe.write }
  | childExits {state : State} {fds : Table File} (status : Int) (runs : state.stage = .executed)
    (lives : state.procs 0 = some fds) :
    Step forked state (.childExits status) { state with
      procs := Function.update state.procs 0 none
      zombie := some status }
  | move {state : State} {move : Move} {procs : Procs File} (runs : state.stage = .executed) (exits : move ≠ .exit 0)
    (forks : ∀ parent, move ≠ .fork parent 0) (done : move.apply state.procs = some procs) :
    Step forked state (.move move) { state with procs := procs }
  | write {state : State} {pid : Nat} {fds : Table File} {number : Int} (runs : state.stage = .executed)
    (lives : state.procs pid = some fds) (open_number : fds.Open number) :
    Step forked state (.write pid number)
      (if fds.file number = some .waitWrite then { state with written := state.written + 1 } else state)
  /-- read fails, or delivers the word, or the error pipe is at its end. -/
  | launcherRead {state : State} (reads : state.parent = .reading)
    (delivers : hardError forked.launch.os.reads ≠ none ∨ state.word ≠ none ∨ state.AtEof .errorWrite) :
    Step forked state .launcherRead
      (state.finish forked (readErrorPipe .clear state.word forked.launch.os.reads forked.launch.errno).reported)
  | asyncWait {state : State} (name : Nat) (returned : state.parent = .returned) (fresh : state.ops name = none) :
    Step forked state (.asyncWait name) (state.asyncWait name)
  | deliver {state : State} {name : Nat} (waits : state.ops name = some .waiting) (readable : state.Readable) :
    Step forked state (.deliver name) (state.setPhase name (.woken .clear))
  | abort {state : State} {name : Nat} (waits : state.ops name = some .waiting) :
    Step forked state (.abort name) (state.setPhase name (.woken (.system 125)))
  | handle {state : State} {name : Nat} {ec : ErrorCode} (queued : state.ops name = some (.woken ec)) :
    Step forked state (.handle name) (state.handle name ec)
  | unblock {state : State} {name : Nat} (blocked : state.ops name = some .blocked) (ended : state.procs 0 = none) :
    Step forked state (.unblock name) (state.collect.2.setPhase name (.completed state.collect.1))
  | collect {state : State} (returned : state.parent = .returned) (running : state.exitCode = none)
    (ended : state.procs 0 = none) :
    Step forked state .collect state.collect.2

/-- The image is called with the write end kept, and while it lives no move takes the write end
from it and all that it has forked, and nobody writes to the pipe. -/
def Condition (forked : Forked) (state : State) : Label → Prop
  | .childExec => forked.Kept
  | .move move => ∀ procs, move.apply state.procs = some procs → procs 0 ≠ none → Held procs .waitWrite
  | .write pid number => state.procs 0 ≠ none → ∀ fds, state.procs pid = some fds → fds.file number ≠ some .waitWrite
  | _ => True

/-- The states that are reached by steps that meet a condition. -/
def Reached (forked : Forked) (condition : State → Label → Prop) : State → Prop :=
  Relation.ReflTransGen (fun before after => ∃ label, condition before label ∧ Step forked before label after)
    (State.initial forked)

/-- What the wait descriptor is for: nothing to read while the image lives, the end of the pipe
when it has exited and nobody else has the write end, and no waitpid that blocks. -/
structure Sound (state : State) : Prop where
  silent : state.stage = .executed → state.procs 0 ≠ none → ¬state.Readable
  ended : state.parent = .returned → state.stage = .executed → state.procs 0 = none →
    (∀ pid fds, state.procs pid = some fds → ¬Has fds .waitWrite) → state.AtEof .waitWrite
  unblocked : ∀ name, state.ops name ≠ some .blocked

namespace State
variable {state : State}

@[simp] theorem collect_written : state.collect.2.written = state.written := by
  unfold collect
  cases state.zombie <;> rfl

@[simp] theorem collect_ops : state.collect.2.ops = state.ops := by
  unfold collect
  cases state.zombie <;> rfl

/-- What the waits of the process object leave alone. -/
structure Frames (state next : State) : Prop where
  stage : next.stage = state.stage
  parent : next.parent = state.parent
  own : next.own = state.own
  procs : next.procs = state.procs

theorem setPhase_frames (name : Nat) (phase : Phase) : state.Frames (state.setPhase name phase) := ⟨rfl, rfl, rfl, rfl⟩

theorem collect_frames : state.Frames state.collect.2 := by
  unfold collect
  cases state.zombie <;> exact ⟨rfl, rfl, rfl, rfl⟩

theorem asyncWait_frames (name : Nat) : state.Frames (state.asyncWait name) := by
  unfold asyncWait
  split
  · exact setPhase_frames ..
  · split
    · exact setPhase_frames ..
    · obtain ⟨stage, parent, own, procs⟩ := @collect_frames state
      exact ⟨stage, parent, own, procs⟩

theorem handle_frames (name : Nat) (ec : ErrorCode) : state.Frames (state.handle name ec) := by
  unfold handle
  split
  · exact setPhase_frames ..
  · split
    · exact setPhase_frames ..
    · split
      · exact setPhase_frames ..
      · obtain ⟨stage, parent, own, procs⟩ := @collect_frames state
        exact ⟨stage, parent, own, procs⟩

theorem finish_parent (forked : Forked) (ec : ErrorCode) : (state.finish forked ec).parent ≠ .forked := by
  unfold finish
  dsimp only
  split <;> nofun

theorem finish_returned {forked : Forked} {ec : ErrorCode} (passed : ec.failed = false) :
    (state.finish forked ec).parent = .returned :=
  if_neg (by simp [passed])

theorem has_of_finish {forked : Forked} {ec : ErrorCode} {file : File} (has : Has (state.finish forked ec).own file) :
    Has state.own file := by
  unfold finish at has
  dsimp only at has
  split at has
  · exact has_of_close (has_of_close has)
  · exact has_of_close has

end State

/-- As long as the child lives somebody has the write end, so nothing but its end wakes a wait. -/
structure Invariant (state : State) : Prop where
  prepares : state.stage = .forked → state.procs 0 ≠ none
  held : state.procs 0 ≠ none → Held state.procs .waitWrite
  unwritten : state.procs 0 ≠ none → state.written = 0
  woken : ∀ name ec, state.ops name = some (.woken ec) → ec.failed = false → state.procs 0 = none
  unblocked : ∀ name, state.ops name ≠ some .blocked

section
variable {forked : Forked} {state next : State}

/-- Steps that do nothing to the pipe and the waits, and do not bring an ended child back. -/
theorem Invariant.child (invariant : Invariant state) (prepares : next.stage = .forked → next.procs 0 ≠ none)
    (held : next.procs 0 ≠ none → Held next.procs .waitWrite) (ended : state.procs 0 = none → next.procs 0 = none)
    (written : next.written = state.written) (ops : next.ops = state.ops) : Invariant next where
  prepares := prepares
  held := held
  unwritten lives := by
    rw [written]
    exact invariant.unwritten fun gone => lives (ended gone)
  woken name ec queued passed := ended (invariant.woken name ec (ops ▸ queued) passed)
  unblocked name := by
    rw [ops]
    exact invariant.unblocked name

theorem Invariant.setPhase (invariant : Invariant state) {name : Nat} {phase : Phase} (not_blocked : phase ≠ .blocked)
    (woken : ∀ ec, phase = .woken ec → ec.failed = false → state.procs 0 = none) :
    Invariant (state.setPhase name phase) where
  prepares := invariant.prepares
  held := invariant.held
  unwritten := invariant.unwritten
  woken other ec queued := by
    by_cases same : other = name
    · have now : phase = .woken ec := by simpa [State.setPhase, same] using queued
      exact woken ec now
    · have before : state.ops other = some (.woken ec) := by simpa [State.setPhase, same] using queued
      exact invariant.woken other ec before
  unblocked other := by
    by_cases same : other = name
    · simpa [State.setPhase, same] using not_blocked
    · simpa [State.setPhase, same] using invariant.unblocked other

theorem Invariant.completed (invariant : Invariant state) (name : Nat) (ec : ErrorCode) :
    Invariant (state.setPhase name (.completed ec)) := invariant.setPhase (by simp) (by simp)

theorem Invariant.collect (invariant : Invariant state) : Invariant state.collect.2 := by
  obtain ⟨stage, -, -, procs⟩ := @State.collect_frames state
  refine invariant.child ?_ ?_ ?_ (by simp) (by simp)
  · rw [stage, procs]
    exact invariant.prepares
  · rw [procs]
    exact invariant.held
  · rw [procs]
    exact id

/-- A readable descriptor means that the child has ended. -/
theorem Invariant.ended_of_readable (invariant : Invariant state) (readable : state.Readable) : state.procs 0 = none := by
  by_contra lives
  rcases readable with written | ⟨-, released⟩
  · exact absurd (invariant.unwritten lives) (Nat.ne_of_gt written)
  · exact released (invariant.held lives)

theorem invariant_initial (forked : Forked) : Invariant (State.initial forked) where
  prepares _ := by simp [State.initial]
  held _ := by
    refine ⟨0, forked.fds, rfl, forked.waitPipe.write, ?_⟩
    simp [Table.file, Forked.fds, PipeForkLauncher.forkedChild, withWaitPipe, forked.apart]
  unwritten _ := rfl
  woken name ec queued := by cases queued
  unblocked name := by simp [State.initial]

/-- A child that has ended does not come back by what others do. -/
theorem Invariant.move (invariant : Invariant state) {move : Move} {procs : Procs File} (runs : state.stage = .executed)
    (met : Condition forked state (.move move)) (exits : move ≠ .exit 0) (forks : ∀ parent, move ≠ .fork parent 0)
    (done : move.apply state.procs = some procs) : Invariant { state with procs := procs } := by
  have started : state.stage ≠ .forked := by simp [runs]
  refine invariant.child (fun forked => absurd forked started) (met procs done) (fun ended => ?_) rfl rfl
  have acts : ∀ action, move ≠ .act 0 action := by
    rintro action rfl
    simp [Move.apply, ended] at done
  exact (apply_frame done acts forks exits).trans ended

theorem invariant_step {label : Label} (invariant : Invariant state) (met : Condition forked state label)
    (taken : Step forked state label next) : Invariant next := by
  cases taken with
  | closeWriteEnds => exact invariant.child invariant.prepares invariant.held id rfl rfl
  | childExec prepares replaced =>
    refine invariant.child (fun forked => by cases forked) ?_ (fun ended => absurd ended (invariant.prepares prepares)) rfl rfl
    -- the image keeps a write end of the second pipe open, so nothing is at its end yet
    exact fun _ => ⟨0, _, Function.update_self 0 _ state.procs, has_exec_iff.mpr (met _ replaced)⟩
  | childFails prepares failure => exact invariant.child (fun forked => by cases forked) (by simp) (by simp) rfl rfl
  | childExits status runs lives => exact invariant.child (by simp [runs]) (by simp) (by simp) rfl rfl
  | move runs exits forks done => exact invariant.move runs met exits forks done
  | write runs lives open_number =>
    split
    · rename_i write_end
      refine ⟨invariant.prepares, invariant.held, fun image => ?_, invariant.woken, invariant.unblocked⟩
      -- the program does not write into the pipe
      exact absurd write_end (met image _ lives)
    · exact invariant
  | launcherRead => exact invariant.child invariant.prepares invariant.held id rfl rfl
  | asyncWait name returned fresh =>
    unfold State.asyncWait
    split
    · exact invariant.completed name .clear
    · split
      · exact invariant.setPhase (by simp) (by simp)
      · exact invariant.collect.completed name _
  | deliver waits readable => exact invariant.setPhase (by simp) fun _ _ _ => invariant.ended_of_readable readable
  | abort waits =>
    refine invariant.setPhase (by simp) fun ec aborted passed => ?_
    cases aborted
    cases passed
  | handle queued =>
    rename_i name ec
    unfold State.handle
    split
    · exact invariant.completed name ec
    · rename_i passed
      have ended := invariant.woken name ec queued (Bool.eq_false_iff.mpr passed)
      split
      · exact invariant.completed name ec
      · -- the child has ended, so waitpid does not block
        rw [if_neg (by simp [ended])]
        exact invariant.collect.completed name _
  | unblock blocked => exact absurd blocked (invariant.unblocked _)
  | collect => exact invariant.collect

theorem invariant_reached (reached : Reached forked (Condition forked) state) : Invariant state := by
  induction reached with
  | refl => exact invariant_initial forked
  | tail _ moved ih =>
    obtain ⟨label, met, taken⟩ := moved
    exact invariant_step ih met taken

/-! ## What the launcher does by itself -/

theorem parentFds_cases {number : Int} {descriptor : Descriptor File} (entry : forked.parentFds number = some descriptor) :
    (number = forked.waitPipe.write ∨ number = forked.pipe.write) ∧ descriptor.closeOnExec = true ∨
      descriptor.file ≠ .errorWrite ∧ descriptor.file ≠ .waitWrite := by
  simp only [Forked.parentFds, withWaitPipe, withErrorPipe, openedFds, Function.update_apply] at entry
  split at entry
  · rename_i here
    cases entry
    exact .inl ⟨.inl here, rfl⟩
  · split at entry
    · cases entry
      exact .inr ⟨nofun, nofun⟩
    · split at entry
      · rename_i here
        cases entry
        exact .inl ⟨.inr here, rfl⟩
      · split at entry
        · cases entry
          exact .inr ⟨nofun, nofun⟩
        · -- an own descriptor of the parent
          obtain ⟨own, -, rfl⟩ := Option.map_eq_some_iff.mp entry
          exact .inr ⟨nofun, nofun⟩

/-- The two closes leave the parent no write end. -/
theorem parentFds_closed {file : File} (write_end : file = .errorWrite ∨ file = .waitWrite) :
    ¬Has ((forked.parentFds.close forked.pipe.write).close forked.waitPipe.write) file := by
  rintro ⟨number, there⟩
  by_cases second : number = forked.waitPipe.write
  · simp [second, Table.file, Table.close] at there
  by_cases first : number = forked.pipe.write
  · simp [first, Table.file, Table.close, Function.update_apply] at there
  rw [Table.file, Table.close_of_ne _ second, Table.close_of_ne _ first] at there
  obtain ⟨descriptor, entry, rfl⟩ := Option.map_eq_some_iff.mp there
  obtain ⟨here, -⟩ | ⟨notError, notWait⟩ := parentFds_cases entry
  · exact here.elim second first
  · exact write_end.elim notError notWait

/-- Once the parent has closed its write ends it has none. -/
structure Parted (forked : Forked) (state : State) : Prop where
  untouched : state.parent = .forked → state.own = forked.parentFds
  closed : state.parent ≠ .forked → ∀ file, file = .errorWrite ∨ file = .waitWrite → ¬Has state.own file

theorem Parted.frames (parted : Parted forked state) (frames : state.Frames next) : Parted forked next := by
  obtain ⟨-, parent, own, -⟩ := frames
  refine ⟨?_, ?_⟩
  · rw [parent, own]
    exact parted.untouched
  · rw [parent, own]
    exact parted.closed

theorem parted_step {label : Label} (parted : Parted forked state) (taken : Step forked state label next) :
    Parted forked next := by
  cases taken with
  | closeWriteEnds waits =>
    refine ⟨nofun, fun _ file write_end => ?_⟩
    rw [parted.untouched waits]
    exact parentFds_closed write_end
  | launcherRead reads =>
    refine ⟨fun still => absurd still (State.finish_parent forked _), fun _ file write_end has => ?_⟩
    exact parted.closed (by simp [reads]) file write_end (State.has_of_finish has)
  | childExec => exact ⟨parted.untouched, parted.closed⟩
  | childFails => exact ⟨parted.untouched, parted.closed⟩
  | childExits => exact ⟨parted.untouched, parted.closed⟩
  | move => exact ⟨parted.untouched, parted.closed⟩
  | write =>
    split
    · exact ⟨parted.untouched, parted.closed⟩
    · exact parted
  | asyncWait name => exact parted.frames (State.asyncWait_frames name)
  | deliver => exact parted.frames (State.setPhase_frames ..)
  | abort => exact parted.frames (State.setPhase_frames ..)
  | handle => exact parted.frames (State.handle_frames ..)
  | unblock =>
    obtain ⟨stage, parent, own, procs⟩ := @State.collect_frames state
    exact parted.frames ⟨stage, parent, own, procs⟩
  | collect => exact parted.frames State.collect_frames

theorem parted_reached {condition : State → Label → Prop} (reached : Reached forked condition state) :
    Parted forked state := by
  induction reached with
  | refl => exact ⟨fun _ => rfl, fun left => absurd rfl left⟩
  | tail _ moved ih =>
    obtain ⟨label, -, taken⟩ := moved
    exact parted_step ih taken

/-- If the image is called with the write end of the second pipe, and neither gives it up nor
writes to it, then the descriptor is what it is for. -/
theorem sound_of_kept (reached : Reached forked (Condition forked) state) : Sound state := by
  have invariant := invariant_reached reached
  refine ⟨fun _ lives readable => lives (invariant.ended_of_readable readable), ?_, invariant.unblocked⟩
  intro returned _ _ released
  refine ⟨(parted_reached reached).closed (by simp [returned]) _ (.inr rfl), ?_⟩
  rintro ⟨pid, fds, lives, has⟩
  exact released pid fds lives has

end

section
variable {forked : Forked} {state : State} {child : Child}

/-- Both write ends are close-on-exec in the child. -/
theorem fds_closeOnExec {number : Int} {file : File} {flag : Bool} (entry : forked.fds number = some ⟨file, flag⟩)
    (write_end : file = .errorWrite ∨ file = .waitWrite) : flag = true := by
  have there : forked.parentFds number = some ⟨file, flag⟩ := by
    by_cases closed : number = forked.pipe.read
    · simp [Forked.fds, PipeForkLauncher.forkedChild, closed, Table.close] at entry
    · have kept : (forked.parentFds.close forked.pipe.read) number = some ⟨file, flag⟩ := entry
      rwa [Table.close_of_ne _ closed] at kept
  obtain ⟨-, flagged⟩ | ⟨notError, notWait⟩ := parentFds_cases there
  · exact flagged
  · exact (write_end.elim notError notWait).elim

/-- The descriptors of the child behind on_exec_setup. -/
def hookedFds (forked : Forked) : Table File :=
  (onExecSetup forked.launch.inits
    (PipeForkLauncher.forkedChild forked.launch forked.pipe forked.waitPipe forked.launch.prepared)).child.fds

/-- No hook of an initializer has changed the descriptors of the child. -/
def Untouched (forked : Forked) : Prop := hookedFds forked = forked.fds

theorem image_lost {file : File} (flagged : ∀ number, hookedFds forked number ≠ some ⟨file, false⟩)
    (replaced : forked.result = .replaced child) : ¬Has child.fds.exec file := by
  have survived : forked.result.survivors = some child.fds := by rw [replaced, ChildResult.survivors]
  obtain ⟨-, -, after⟩ := setupAndExec_survivors survived
  rw [has_exec_iff]
  rintro ⟨number, entry⟩
  rw [after] at entry
  rcases closeAllFds_cases forked.launch.os _ _ number with closed | same
  · rw [closed] at entry
    cases entry
  · rw [same] at entry
    exact flagged number entry

theorem flagged_of_untouched (untouched : Untouched forked) {file : File} (write_end : file = .errorWrite ∨ file = .waitWrite)
    (number : Int) : hookedFds forked number ≠ some ⟨file, false⟩ := by
  rw [untouched]
  intro entry
  cases fds_closeOnExec entry write_end

theorem not_kept_of_untouched (untouched : Untouched forked) (replaced : forked.result = .replaced child) : ¬forked.Kept :=
  fun kept => image_lost (flagged_of_untouched untouched (.inr rfl)) replaced (has_exec_iff.mpr (kept child replaced))

/-- A file that the new image does not have is held by nobody from then on. -/
structure Released (file : File) (state : State) : Prop where
  alone : state.stage = .forked → ∀ pid, pid ≠ 0 → state.procs pid = none
  released : state.stage = .executed → ¬Held state.procs file

theorem Released.frames {file : File} {next : State} (released : Released file state) (frames : state.Frames next) :
    Released file next := by
  obtain ⟨stage, -, -, procs⟩ := frames
  refine ⟨?_, ?_⟩
  · rw [stage, procs]
    exact released.alone
  · rw [stage, procs]
    exact released.released

theorem released_initial (file : File) : Released file (State.initial forked) where
  alone _ _ other := if_neg other
  released := nofun

theorem released_step {file : File} {next : State} {label : Label} (lost : ∀ child, forked.result = .replaced child →
    ¬Has child.fds.exec file) (released : Released file state) (taken : Step forked state label next) : Released file next := by
  cases taken with
  | closeWriteEnds => exact ⟨released.alone, released.released⟩
  | childExec prepares replaced =>
    refine ⟨nofun, ?_⟩
    -- only the image has descriptors yet, and it has lost the write end
    rintro - ⟨pid, fds, lives, has⟩
    by_cases image : pid = 0
    · subst image
      obtain rfl := Option.some.inj ((Function.update_self 0 _ state.procs).symm.trans lives)
      exact lost _ replaced has
    · have nobody : state.procs pid = some fds := by simpa [image] using lives
      rw [released.alone prepares pid image] at nobody
      cases nobody
  | childFails => exact ⟨nofun, nofun⟩
  | childExits status runs lives =>
    have exits : (Move.exit 0).apply state.procs = some (Function.update state.procs 0 none) := by simp [Move.apply, lives]
    refine ⟨fun stage => ?_, fun _ held => released.released runs (held_of_apply exits held)⟩
    rw [runs] at stage
    cases stage
  | move runs exits forks done =>
    refine ⟨fun stage => ?_, fun _ held => released.released runs (held_of_apply done held)⟩
    rw [runs] at stage
    cases stage
  | write =>
    split
    · exact ⟨released.alone, released.released⟩
    · exact released
  | launcherRead => exact ⟨released.alone, released.released⟩
  | asyncWait name => exact released.frames (State.asyncWait_frames name)
  | deliver => exact released.frames (State.setPhase_frames ..)
  | abort => exact released.frames (State.setPhase_frames ..)
  | handle => exact released.frames (State.handle_frames ..)
  | unblock =>
    obtain ⟨stage, parent, own, procs⟩ := @State.collect_frames state
    exact released.frames ⟨stage, parent, own, procs⟩
  | collect => exact released.frames State.collect_frames

theorem released_reached {file : File} {condition : State → Label → Prop}
    (lost : ∀ child, forked.result = .replaced child → ¬Has child.fds.exec file)
    (reached : Reached forked condition state) : Released file state := by
  induction reached with
  | refl => exact released_initial file
  | tail _ moved ih =>
    obtain ⟨label, -, taken⟩ := moved
    exact released_step lost ih taken

/-- Without the condition, the pipe is at its end as soon as the child's image is replaced, and
stays there, however long the image lives. -/
theorem atEof_of_not_kept (lost : ¬forked.Kept) (reached : Reached forked (fun _ _ => True) state)
    (executed : state.stage = .executed) (closed : state.parent ≠ .forked) : state.AtEof .waitWrite := by
  have image_lost : ∀ child, forked.result = .replaced child → ¬Has child.fds.exec .waitWrite := by
    intro child replaced has
    refine lost fun other same => ?_
    obtain rfl : child = other := by
      rw [replaced] at same
      exact ChildResult.replaced.inj same
    exact has_exec_iff.mp has
  exact ⟨(parted_reached reached).closed closed _ (.inr rfl), (released_reached image_lost reached).released executed⟩

theorem Reached.step {condition : State → Label → Prop} {next : State} {label : Label} (reached : Reached forked condition state)
    (met : condition state label) (taken : Step forked state label next) : Reached forked condition next :=
  reached.tail ⟨label, met, taken⟩

theorem asyncWait_of_running {name : Nat} (unknown : state.exitCode = none) (lives : (state.procs 0).isSome = true) :
    state.asyncWait name = state.setPhase name .waiting := by
  simp [State.asyncWait, unknown, lives]

theorem handle_of_running {name : Nat} (unknown : state.exitCode = none) (lives : (state.procs 0).isSome = true) :
    state.handle name .clear = state.setPhase name .blocked := by
  simp [State.handle, unknown, lives]

/-- With initializers that leave the descriptors alone, a wait that is started before the child
exits can end up in a waitpid that blocks. -/
theorem blocked_of_untouched (untouched : Untouched forked) (replaced : forked.result = .replaced child) :
    ∃ state, Reached forked (fun _ _ => True) state ∧ state.stage = .executed ∧ state.procs 0 ≠ none ∧
      state.ops 0 = some .blocked := by
  have lost : ∀ file, file = .errorWrite ∨ file = .waitWrite →
      ∀ other, forked.result = .replaced other → ¬Has other.fds.exec file :=
    fun file write_end other same => image_lost (flagged_of_untouched untouched write_end) same
  have executed : Reached forked (fun _ _ => True) _ :=
    Reached.step .refl trivial (.childExec rfl replaced)
  have closed := executed.step trivial (.closeWriteEnds rfl)
  have error_end := (released_reached (lost .errorWrite (.inl rfl)) closed).released rfl
  have wait_end := (released_reached (lost .waitWrite (.inr rfl)) closed).released rfl
  have succeeded : (readErrorPipe .clear none forked.launch.os.reads forked.launch.errno).reported.failed = false := by
    rw [reported_eq]
    split <;> rfl
  have error_closed := (parted_reached closed).closed nofun _ (.inl rfl)
  have read := closed.step trivial (.launcherRead rfl (.inr (.inr ⟨error_closed, error_end⟩)))
  have parent_end := (parted_reached read).closed (State.finish_parent forked _) _ (.inr rfl)
  have started := read.step trivial (.asyncWait 0 (State.finish_returned succeeded) rfl)
  rw [asyncWait_of_running rfl rfl] at started
  have delivered := started.step trivial (@Step.deliver _ _ 0 rfl (.inr ⟨parent_end, wait_end⟩))
  have handled := delivered.step trivial (@Step.handle _ _ 0 .clear rfl)
  rw [handle_of_running rfl rfl] at handled
  exact ⟨_, handled, rfl, by simp [State.setPhase, State.finish], rfl⟩

/-- A launch without initializers. -/
def bare : Forked where
  launch := launchOf [] (ordinaryOs none)
  self := { env := 0 }
  pipe := firstPipe
  waitPipe := secondPipe
  apart := by decide

/-- A run of it in which the wait descriptor is at its end with the image alive, so that the handler
calls a waitpid that blocks. -/
theorem not_sound_bare : ¬∀ (forked : Forked) (state : State), Reached forked (fun _ _ => True) state → Sound state := by
  intro sound
  obtain ⟨state, reached, -, -, blocked⟩ : ∃ state, Reached bare (fun _ _ => True) state ∧ state.stage = .executed ∧
      state.procs 0 ≠ none ∧ state.ops 0 = some .blocked := blocked_of_untouched rfl rfl
  exact (sound bare state reached).unblocked 0 blocked

end

/-- A launch with an initializer that clears the flag of the write end. -/
def cleared : Forked where
  launch := launchOf [{ onExecSetup := fun child =>
    { ec := .clear, child := { child with fds := Function.update child.fds 6 (some ⟨.waitWrite, false⟩) } } }]
    { ordinaryOs none with closeAll := .listed }
  self := { env := 0 }
  pipe := firstPipe
  waitPipe := secondPipe
  apart := by decide

theorem cleared_flagged (number : Int) : hookedFds cleared number ≠ some ⟨.errorWrite, false⟩ := by
  intro entry
  by_cases here : number = 6
  · subst here
    cases entry
  · have kept : cleared.fds number = some ⟨.errorWrite, false⟩ := (Function.update_of_ne here _ _).symm.trans entry
    cases fds_closeOnExec kept (.inl rfl)

/-- A wait is started while its image runs, the image exits, the end of the pipe wakes the wait, and
that gets the status. -/
theorem sound_of_kept_cleared :
    ∃ state, Reached cleared (Condition cleared) state ∧ state.parent = .returned ∧ state.stage = .executed ∧
      state.procs 0 = none ∧ state.exitCode = some 0 ∧ state.ops 0 = some (.completed .clear) ∧ state.AtEof .waitWrite := by
  have kept : Condition cleared (State.initial cleared) .childExec := by
    intro child replaced
    obtain rfl := ChildResult.replaced.inj replaced
    exact ⟨6, rfl⟩
  have executed := Reached.step .refl kept (.childExec rfl rfl)
  have closed := executed.step (show Condition cleared _ .closeWriteEnds from trivial) (.closeWriteEnds rfl)
  have error_end := (released_reached (fun _ replaced => image_lost cleared_flagged replaced) closed).released rfl
  have error_closed := (parted_reached closed).closed nofun _ (.inl rfl)
  have read := closed.step (show Condition cleared _ .launcherRead from trivial)
    (.launcherRead rfl (.inr (.inr ⟨error_closed, error_end⟩)))
  have started := read.step (show Condition cleared _ (.asyncWait 0) from trivial)
    (.asyncWait 0 (State.finish_returned rfl) rfl)
  rw [asyncWait_of_running rfl rfl] at started
  have exited := started.step (show Condition cleared _ (.childExits 0) from trivial) (.childExits 0 rfl rfl)
  have atEof := (sound_of_kept exited).ended rfl rfl rfl (by
    intro pid fds lives
    by_cases image : pid = 0
    · subst image
      cases lives
    · simp [State.initial, State.setPhase, State.finish, image] at lives)
  have delivered := exited.step (show Condition cleared _ (.deliver 0) from trivial) (@Step.deliver _ _ 0 rfl (.inr atEof))
  have handled := delivered.step (show Condition cleared _ (.handle 0) from trivial) (@Step.handle _ _ 0 .clear rfl)
  exact ⟨_, handled, rfl, rfl, rfl, rfl, rfl,
    (sound_of_kept handled).ended rfl rfl rfl fun pid fds lives has => atEof.2 ⟨pid, fds, lives, has⟩⟩

end BoostProcess.V2.Posix.LifetimePipe
