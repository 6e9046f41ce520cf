import BoostProcess.V2.Posix.Launcher

/-! The path of a launch: the step at which it stopped, and what the caller and
the initializers then observe.

The paths are read off the answers of the operating system and the hooks alone.
Each launcher is related to them once; what is proved about its result is then
a case distinction on four paths instead of on its control flow.
-/

set_option autoImplicit false

namespace BoostProcess.V2.Posix

inductive Path where
  | noPipe (error : Errno)
  | setupFailed (ec : ErrorCode)
  | forkFailed (error : Errno)
  | forked (pid : Int) (result : ChildResult) (word : Option Int)

namespace Path

/-- The error of the step that kept the launch from succeeding. -/
def error : Path → Option ErrorCode
  | .noPipe error => some (.system error.code)
  | .setupFailed ec => some ec
  | .forkFailed error => some (.system error.code)
  | .forked _ result _ => result.error

def Replaced : Path → Prop
  | .forked _ result _ => result.error = none
  | _ => False

def child : Path → Option Int
  | .forked pid _ _ => some pid
  | _ => none

def result : Path → Option ChildResult
  | .forked _ result _ => some result
  | _ => none

end Path

/-! ## Errors that are failures -/

theorem onSetup_clear {inits : List Initializer} {errno : Int}
    (succeeded : ¬ (onSetup inits errno).ec.failed = true) : (onSetup inits errno).ec = .clear := by
  induction inits generalizing errno with
  | nil => rfl
  | cons init inits ih =>
    simp only [onSetup] at succeeded ⊢
    split
    · rename_i failed
      rw [if_pos failed] at succeeded
      exact absurd failed succeeded
    · rename_i passed
      rw [if_neg passed] at succeeded
      exact ih succeeded

/-- A child that was not replaced has an error, and reports it in errno unless an
initializer made it up. -/
theorem setupAndExec_error {os : Os} {inits : List Initializer} {fdWhitelist : List Int}
    {child : Child} {ec : ErrorCode} (failure : (setupAndExec os inits fdWhitelist child).error = some ec) :
    ec.failed = true := by
  simp only [setupAndExec] at failure
  split at failure
  · rename_i failed
    cases failure
    exact failed
  · split at failure
    · rename_i failed
      cases failure
      exact failed
    · split at failure
      · cases failure
      · cases failure
        exact ErrorCode.failed_errno _

/-! ## Paths of the four launchers -/

/-- Everything from on_setup on, given the child of a successful fork. -/
def pathFromSetup (launch : Launch) (result : ChildResult) (word : Option Int) : Path :=
  let setup := onSetup launch.inits launch.errno
  if setup.ec.failed then .setupFailed setup.ec
  else
    match launch.os.fork with
    | .error error => .forkFailed error
    | .ok pid => .forked pid result word

/-- errno and launcher as they are right before fork. -/
def Launch.prepared (launch : Launch) : Int :=
  launch.os.notifyFork (onSetup launch.inits launch.errno).errno

def Launch.setUp (launch : Launch) (self : Launcher) : Launcher :=
  self.setUp (onSetup launch.inits launch.errno)

def DefaultLauncher.childResult (launch : Launch) (pipe : Pipe) (self : Launcher) : ChildResult :=
  setupAndExec launch.os launch.inits ((launch.setUp self).fdWhitelist ++ [pipe.write])
    (forkedChild launch pipe launch.prepared)

def DefaultLauncher.path (launch : Launch) (self : Launcher) : Path :=
  match launch.os.pipe with
  | .error error => .noPipe error
  | .ok pipe =>
    match launch.os.fcntl with
    | some error => .noPipe error
    | none =>
      let result := childResult launch pipe self
      pathFromSetup launch result (result.report pipe.write)

def PipeForkLauncher.childResult (launch : Launch) (pipe waitPipe : Pipe) (self : Launcher) :
    ChildResult :=
  setupAndExec launch.os launch.inits
    ((launch.setUp self).fdWhitelist ++ [pipe.write] ++ [waitPipe.write])
    (forkedChild launch pipe waitPipe launch.prepared)

def PipeForkLauncher.path (launch : Launch) (self : Launcher) : Path :=
  match launch.os.pipe with
  | .error error => .noPipe error
  | .ok pipe =>
    match launch.os.fcntl with
    | some error => .noPipe error
    | none =>
      match launch.os.waitPipe with
      | .error error => .noPipe error
      | .ok waitPipe =>
        match launch.os.waitFcntl with
        | some error => .noPipe error
        | none =>
          let result := childResult launch pipe waitPipe self
          pathFromSetup launch result (result.report pipe.write)

def VforkLauncher.path (launch : Launch) (self : Launcher) : Path :=
  let result := setupAndExec launch.os launch.inits (launch.setUp self).fdWhitelist
    (vforkedChild launch launch.prepared)
  pathFromSetup launch result none

def ForkAndForgetLauncher.path (launch : Launch) (self : Launcher) : Path :=
  let result := setupAndExec launch.os launch.inits (launch.setUp self).fdWhitelist
    (forkedChild launch launch.prepared)
  pathFromSetup launch result none

def Kind.path : Kind → Launch → Launcher → Path
  | .default => DefaultLauncher.path
  | .pipeFork => PipeForkLauncher.path
  | .vfork => VforkLauncher.path
  | .forkAndForget => ForkAndForgetLauncher.path

/-! ## What the caller gets -/

/-- The first error of read that ends the loop. -/
def hardError (reads : List Errno) : Option Errno :=
  reads.find? fun error => error ≠ Errno.EAGAIN ∧ error ≠ Errno.EINTR

theorem reported_eq (word : Option Int) (reads : List Errno) (errno : Int) :
    (readErrorPipe .clear word reads errno).reported =
      if hardError reads = none then .system (word.getD 0) else .clear := by
  induction reads generalizing errno with
  | nil => cases word <;> rfl
  | cons error rest ih =>
    simp only [readErrorPipe, hardError, List.find?_cons]
    -- count is -1 then, and ec is overwritten by a child_error that is still 0
    by_cases hard : error ≠ Errno.EAGAIN ∧ error ≠ Errno.EINTR
    · simp [hard, ReadEnd.reported, ErrorCode.system, ErrorCode.clear]
    · simp only [hard, ↓reduceIte, decide_false]
      exact ih error.code

/-- errno behind the notifications of a failed fork, where the launchers read it. -/
def Kind.forkErrno (kind : Kind) (launch : Launch) (error : Errno) : Int :=
  let first := onForkError .clear launch.inits (launch.os.notifyFork error.code)
  let last := if kind = .forkAndForget then onForkError .clear launch.inits first.errno else first
  (onError .clear launch.inits last.errno).errno

/-- What the parent takes for the outcome of its child. -/
def Kind.parentEc (kind : Kind) (os : Os) (result : ChildResult) (word : Option Int) : ErrorCode :=
  match kind with
  | .default | .pipeFork => if hardError os.reads = none then .system (word.getD 0) else .clear
  | .vfork => VforkLauncher.sharedEc result
  | .forkAndForget => .clear

def Kind.ec (kind : Kind) (launch : Launch) : Path → ErrorCode
  | .noPipe error => .system error.code
  | .setupFailed ec => ec
  | .forkFailed error => .system (kind.forkErrno launch error)
  | .forked _ result word => kind.parentEc launch.os result word

/-! ## What the initializers and the system see -/

def Event.error? : Event → Option (Nat × ErrorCode)
  | .onError index ec => some (index, ec)
  | _ => none

def Event.forkError? : Event → Option (Nat × ErrorCode)
  | .onForkError index ec => some (index, ec)
  | _ => none

def Event.execError? : Event → Option (Nat × ErrorCode)
  | .onExecError index ec => some (index, ec)
  | _ => none

/-- The errors that the initializer at a position was told through one hook. -/
def toldTo (select : Event → Option (Nat × ErrorCode)) (index : Nat) (log : List Event) :
    List ErrorCode :=
  log.filterMap fun event =>
    (select event).bind fun told => if told.1 = index then some told.2 else none

def errorsOf (index : Nat) (log : List Event) : List ErrorCode := toldTo Event.error? index log

def forkErrorsOf (index : Nat) (log : List Event) : List ErrorCode := toldTo Event.forkError? index log

def execErrorsOf (index : Nat) (log : List Event) : List ErrorCode := toldTo Event.execError? index log

section
variable {select : Event → Option (Nat × ErrorCode)} {index : Nat}

@[simp] theorem toldTo_append (first second : List Event) :
    toldTo select index (first ++ second) = toldTo select index first ++ toldTo select index second :=
  List.filterMap_append

theorem toldTo_silent {log : List Event} (silent : ∀ event ∈ log, select event = none) :
    toldTo select index log = [] := by
  induction log with
  | nil => rfl
  | cons event rest ih =>
    simp only [toldTo, List.filterMap_cons, silent event List.mem_cons_self, Option.bind_none]
    exact ih fun other member => silent other (List.mem_cons_of_mem event member)

/-- A notification of every initializer tells each of them once. -/
theorem toldTo_range' {event : Nat → Event} {ec : ErrorCode}
    (selected : ∀ position, select (event position) = some (position, ec)) (start count : Nat) :
    toldTo select index ((List.range' start count).map event) =
      if start ≤ index ∧ index < start + count then [ec] else [] := by
  induction count generalizing start with
  | zero =>
    rw [if_neg (by omega)]
    rfl
  | succ count ih =>
    have later := ih (start + 1)
    simp only [toldTo] at later ⊢
    simp only [List.range'_succ, List.map_cons, List.filterMap_cons, selected, Option.bind_some, later]
    -- only the event at the start of the range is for its position
    by_cases same : start = index
    · rw [if_pos same, if_neg (by omega), if_pos (by omega)]
    · rw [if_neg same]
      have shifted : (start + 1 ≤ index ∧ index < start + 1 + count) ↔
          (start ≤ index ∧ index < start + (count + 1)) := by omega
      simp only [shifted]

theorem errorsOf_onError {inits : List Initializer} (present : index < inits.length) (ec : ErrorCode)
    (errno : Int) : errorsOf index (onError ec inits errno).log = [ec] := by
  rw [onError, notify_log, errorsOf, toldTo_range' (fun _ => rfl), if_pos ⟨Nat.zero_le _, by omega⟩]

theorem forkErrorsOf_onForkError {inits : List Initializer} (present : index < inits.length)
    (ec : ErrorCode) (errno : Int) : forkErrorsOf index (onForkError ec inits errno).log = [ec] := by
  rw [onForkError, notify_log, forkErrorsOf, toldTo_range' (fun _ => rfl),
    if_pos ⟨Nat.zero_le _, by omega⟩]

theorem execErrorsOf_onExecError {inits : List Initializer} (present : index < inits.length)
    (ec : ErrorCode) (errno : Int) : execErrorsOf index (onExecError ec inits errno).log = [ec] := by
  rw [onExecError, notify_log, execErrorsOf, toldTo_range' (fun _ => rfl),
    if_pos ⟨Nat.zero_le _, by omega⟩]

@[simp] theorem errorsOf_append (first second : List Event) :
    errorsOf index (first ++ second) = errorsOf index first ++ errorsOf index second :=
  toldTo_append first second

@[simp] theorem forkErrorsOf_append (first second : List Event) :
    forkErrorsOf index (first ++ second) = forkErrorsOf index first ++ forkErrorsOf index second :=
  toldTo_append first second

end

/-! The other parts of a log: closed descriptors, the wait and the notifications
of the other kinds. -/

section
variable (index : Nat) (ec : ErrorCode) (inits : List Initializer) (errno : Int)

theorem mem_destroy {pg : PipeGuard} {event : Event} (member : event ∈ pg.destroy) :
    ∃ fd, event = .close fd := by
  unfold PipeGuard.destroy at member
  rcases List.mem_append.mp member with member | member <;> split at member <;>
    simp only [List.mem_singleton, List.not_mem_nil] at member
  · exact ⟨_, member⟩
  · exact ⟨_, member⟩

theorem mem_reap {pid : Int} {interrupts : Nat} {event : Event} (member : event ∈ reap pid interrupts errno) :
    ∃ reaped, event = .waitpid pid reaped := by
  induction interrupts generalizing errno with
  | zero =>
    simp only [reap, List.mem_cons] at member
    rcases member with rfl | member
    · exact ⟨true, rfl⟩
    · split at member
      · exact ⟨false, List.mem_singleton.mp member⟩
      · cases member
  | succ interrupts ih =>
    rcases List.mem_cons.mp member with rfl | member
    · exact ⟨false, rfl⟩
    · exact ih Errno.EINTR.code member

theorem reap_reaps (pid : Int) (interrupts : Nat) : .waitpid pid true ∈ reap pid interrupts errno := by
  induction interrupts generalizing errno with
  | zero => exact List.mem_cons_self
  | succ interrupts ih => exact List.mem_cons_of_mem _ (ih Errno.EINTR.code)

@[simp] theorem errorsOf_onForkError : errorsOf index (onForkError ec inits errno).log = [] := by
  refine toldTo_silent fun event member => ?_
  obtain ⟨position, -, rfl⟩ := mem_onForkError.mp member
  rfl

@[simp] theorem forkErrorsOf_onError : forkErrorsOf index (onError ec inits errno).log = [] := by
  refine toldTo_silent fun event member => ?_
  obtain ⟨position, -, rfl⟩ := mem_onError.mp member
  rfl

end

end BoostProcess.V2.Posix
