import BoostProcess.V1.Posix.LaunchOutcome
import BoostProcess.V1.Posix.SigchldDelivery

/-! async_system: what its handler is told, of the launch and of the exit of the child.

A launch that fails calls on_error, which posts the handler. Where it succeeds, the io_context_ref,
which is the first initializer, registers the handler for the exit before the others get on_success.
-/

set_option autoImplicit false

namespace BoostProcess.V1.Posix

open BoostProcess.V2 (ExitStatus processIsRunning)
open Transition

namespace Launch

variable {launch : Launch}

/-! ## What the parent reads -/

/-- The parent gets behind fork. -/
def Forks (launch : Launch) : Prop := launch.pipe = none ∧ launch.onSetup = [] ∧ launch.fork = none

instance (launch : Launch) : Decidable launch.Forks := inferInstanceAs (Decidable (_ ∧ _ ∧ _))

/-- What follows in the pipe if execve returns. -/
def lastWrites (launch : Launch) : List (List UInt8) := launch.execve.elim [] launch.failedWrites

/-- The size in the header of the first error that the child writes, if it writes one. -/
def firstSize (launch : Launch) : Option (BitVec 32) :=
  match launch.onExecSetup with
  | error :: _ => some (Sender.setError.size error.msg)
  | [] => launch.execve.map fun _ =>
    match launch.onExecError with
    | error :: _ => Sender.setError.size error.msg
    | [] => Sender.failedExec.size execFailed

theorem first_of_flatMap (error : RaisedError) (later : List RaisedError) : ∃ rest,
    (error :: later).flatMap RaisedError.writes =
    (intBytes error.ec.code ++ intBytes (Sender.setError.size error.msg)) :: rest := by
  obtain ⟨payload, writes⟩ := Sender.setError.writes_eq error.ec.code error.msg
  refine ⟨payload :: later.flatMap RaisedError.writes, ?_⟩
  rw [List.flatMap_cons, RaisedError.writes, writes]
  rfl

theorem writes_of_firstSize {size : BitVec 32} (first : launch.firstSize = some size) :
    ∃ code rest, code ≠ 0#32 ∧ launch.setupWrites ++ launch.lastWrites = (intBytes code ++ intBytes size) :: rest := by
  unfold firstSize at first
  unfold setupWrites
  cases setup : launch.onExecSetup with
  | cons error later =>
    rw [setup] at first
    cases first
    obtain ⟨rest, writes⟩ := first_of_flatMap error later
    rw [writes]
    exact ⟨_, _, error.ec.nonzero, rfl⟩
  | nil =>
    rw [setup] at first
    obtain ⟨ec, exec, same⟩ := Option.map_eq_some_iff.mp first
    rw [List.flatMap_nil, List.nil_append, lastWrites, exec, Option.elim_some, failedWrites]
    cases raised : launch.onExecError with
    | cons error later =>
      rw [raised] at same
      cases same
      obtain ⟨rest, writes⟩ := first_of_flatMap error later
      rw [writes]
      exact ⟨_, _, error.ec.nonzero, rfl⟩
    | nil =>
      rw [raised] at same
      cases same
      obtain ⟨payload, writes⟩ := Sender.failedExec.writes_eq ec.code execFailed
      rw [List.flatMap_nil, List.nil_append, writes]
      exact ⟨_, _, ec.nonzero, rfl⟩

theorem writes_of_firstSize_none (first : launch.firstSize = none) : launch.setupWrites ++ launch.lastWrites = [] := by
  unfold firstSize at first
  unfold setupWrites lastWrites
  cases setup : launch.onExecSetup with
  | cons error later =>
    rw [setup] at first
    cases first
  | nil =>
    rw [setup] at first
    rw [Option.map_eq_none_iff.mp first]
    rfl

/-- What the child has left to write. -/
def ahead (launch : Launch) : Option ForkedChild → List (List UInt8)
  | some (.setup ahead) => ahead ++ launch.lastWrites
  | some (.failed ahead) => ahead
  | _ => []

/-- The pipe has all that the child has written. -/
def Unread (launch : Launch) (state : LaunchState) : Prop :=
  ∃ written, written ++ launch.ahead state.child = launch.setupWrites ++ launch.lastWrites ∧ state.pipe = written.flatten

theorem Unread.childStep {state next : LaunchState} (reads : state.parent.holdsSource = true) (unread : launch.Unread state)
    (taken : launch.childStep state = some next) : next.parent = state.parent ∧ launch.Unread next := by
  obtain ⟨written, all, same⟩ := unread
  -- what is written stands behind what has been written before
  have writes {bytes : List UInt8} {rest : List (List UInt8)} {after : ForkedChild}
      (here : launch.ahead state.child = bytes :: rest) (later : launch.ahead (some after) = rest)
      (step : launch.write state bytes after = next) : next.parent = state.parent ∧ launch.Unread next := by
    unfold write at step
    rw [if_pos reads] at step
    subst step
    refine ⟨rfl, written ++ [bytes], ?_, ?_⟩
    · rw [← all, here, ← later, List.append_assoc]
      rfl
    · rw [List.flatten_append, List.flatten_singleton, ← same]
  unfold Launch.childStep at taken
  split at taken
  · rename_i bytes rest child
    exact writes (by rw [child]; rfl) rfl (Option.some.inj taken)
  · rename_i child
    -- execve closes the pipe, or its error is all that is still to be written
    split at taken
    · rename_i exec
      cases taken
      refine ⟨rfl, written, ?_, same⟩
      rw [← all, child]
      simp [ahead, lastWrites, exec]
    · rename_i ec exec
      cases taken
      refine ⟨rfl, written, ?_, same⟩
      rw [← all, child]
      simp [ahead, lastWrites, exec]
  · rename_i bytes rest child
    exact writes (by rw [child]; rfl) rfl (Option.some.inj taken)
  · rename_i child
    cases taken
    refine ⟨rfl, written, ?_, same⟩
    rw [← all, child]
    rfl
  · cases taken

/-- The parent reads the header of the first error, or the end if there is none. -/
theorem Unread.readHeader {state next : LaunchState} (unread : launch.Unread state) (taken : readHeader state = some next) :
    (launch.firstSize = none ∧ next.parent = .succeeds) ∨
      ∃ code size, launch.firstSize = some size ∧ code ≠ 0#32 ∧
        next.parent = if size.toInt < 0 then .returned true else .readsMessage code size := by
  obtain ⟨parent, child, pipe⟩ := state
  obtain ⟨written, all, same⟩ := unread
  dsimp only at all same
  unfold Launch.readHeader at taken
  cases first : launch.firstSize with
  | none =>
    rw [writes_of_firstSize_none first] at all
    rw [(List.append_eq_nil_iff.mp all).1, List.flatten_nil] at same
    rw [if_neg (by simp [same])] at taken
    split at taken
    · cases taken
      exact .inl ⟨rfl, rfl⟩
    · cases taken
  | some size =>
    obtain ⟨code, rest, nonzero, writes⟩ := writes_of_firstSize first
    have header : (intBytes code ++ intBytes size).length = 8 := by simp
    rw [writes] at all
    right
    refine ⟨code, size, rfl, nonzero, ?_⟩
    cases written with
    | nil =>
      -- the child has the sink
      rw [List.nil_append] at all
      have holds : atEnd ⟨parent, child, pipe⟩ = false := by
        unfold ahead at all
        split at all
        · rfl
        · rfl
        · cases all
      rw [if_neg (by simp [same]), holds, if_neg (by simp)] at taken
      cases taken
    | cons bytes written =>
      obtain ⟨rfl, -⟩ := List.cons.inj all
      rw [List.flatten_cons] at same
      have filled : pipe ≠ [] := by
        intro empty
        rw [empty] at same
        have lengths := congrArg List.length same
        simp only [List.length_append, header, List.length_nil] at lengths
        omega
      rw [if_pos filled, same, List.take_left' header] at taken
      dsimp only at taken
      rw [List.drop_left' (intBytes_length code), List.take_left' (intBytes_length code),
        List.take_of_length_le (Nat.le_of_eq (intBytes_length size)), bytesInt_intBytes, bytesInt_intBytes] at taken
      cases taken
      rfl

/-! ## How often a handler is called -/

/-- The calls of the handler that a launch leads to: none behind pipe(2), fcntl(2) and a size that
throws, one by on_error, one for the exit, and both if an initializer raises an error in on_success. -/
def answers (launch : Launch) : Nat :=
  if launch.Forks then
    match launch.firstSize with
    | some size => if size.toInt < 0 then 0 else 1
    | none => if launch.onSuccess = [] then 1 else 2
  else if launch.pipe.isSome then 0
  else 1

/-- Where the parent is, and how often the handler has been posted or registered by then. -/
def Standing (launch : Launch) (state : LaunchState) (answered : Nat) : Prop :=
  match state.parent with
  | .start => state = Launch.start ∧ answered = 0
  | .forked | .readsHeader => launch.Forks ∧ launch.Unread state ∧ answered = 0
  | .readsMessage code _ => code ≠ 0#32 ∧ launch.answers = 1 ∧ answered = 0
  | .reaps => launch.answers = 1 ∧ answered = 0
  | .succeeds => launch.Forks ∧ (launch.answers = if launch.onSuccess = [] then 1 else 2) ∧ answered = 0
  | .returned _ => answered = launch.answers

theorem invoke_of_forks (forks : launch.Forks) :
    launch.invoke Launch.start = ⟨.forked, some (.setup launch.setupWrites), []⟩ := by
  obtain ⟨piped, prepared, forked⟩ := forks
  simp [invoke, Launch.start, piped, prepared, forked]

theorem invoke_of_not_forks (fails : ¬ launch.Forks) (state : LaunchState) :
    ∃ reports, (launch.invoke state).parent = .returned reports := by
  unfold invoke
  split
  · exact ⟨_, rfl⟩
  · rename_i piped
    split
    · exact ⟨_, rfl⟩
    · rename_i prepared
      split
      · exact ⟨_, rfl⟩
      · rename_i forked
        rw [Option.not_isSome_iff_eq_none] at piped forked
        exact absurd ⟨piped, not_not.mp prepared, forked⟩ fails

theorem write_parent (state : LaunchState) (bytes : List UInt8) (after : ForkedChild) :
    (launch.write state bytes after).parent = state.parent := by
  unfold write
  split
  · rfl
  · split <;> rfl

theorem childStep_parent {state next : LaunchState} (taken : launch.childStep state = some next) :
    next.parent = state.parent := by
  unfold Launch.childStep at taken
  split at taken
  · cases taken
    exact write_parent state _ _
  · split at taken <;> cases taken <;> rfl
  · cases taken
    exact write_parent state _ _
  · cases taken
    rfl
  · cases taken

/-- Only before the parent has read does it matter what the child writes. -/
theorem Standing.of_parent {state next : LaunchState} {answered : Nat} (stands : launch.Standing state answered)
    (same : next.parent = state.parent) (start : state ≠ Launch.start)
    (unread : state.parent.holdsSource = true → launch.Unread state → launch.Unread next) : launch.Standing next answered := by
  unfold Standing at stands ⊢
  rw [same]
  cases parent : state.parent with
  | start =>
    rw [parent] at stands
    exact absurd stands.1 start
  | forked =>
    rw [parent] at stands unread
    exact ⟨stands.1, unread rfl stands.2.1, stands.2.2⟩
  | readsHeader =>
    rw [parent] at stands unread
    exact ⟨stands.1, unread rfl stands.2.1, stands.2.2⟩
  | readsMessage code size =>
    rw [parent] at stands
    exact stands
  | reaps =>
    rw [parent] at stands
    exact stands
  | succeeds =>
    rw [parent] at stands
    exact stands
  | returned reports =>
    rw [parent] at stands
    exact stands

theorem Standing.childStep {state next : LaunchState} {answered : Nat} (stands : launch.Standing state answered)
    (taken : launch.childStep state = some next) : launch.Standing next answered := by
  apply stands.of_parent (childStep_parent taken)
  · rintro rfl
    cases taken
  · exact fun reads unread => (unread.childStep reads taken).2

theorem Standing.imageEnds {state next : LaunchState} {answered : Nat} (stands : launch.Standing state answered)
    (taken : launch.step state .imageEnds = some next) : launch.Standing next answered := by
  simp only [step] at taken
  split at taken
  · rename_i replaced
    cases taken
    apply stands.of_parent
    · rfl
    · rintro rfl
      cases replaced
    · intro _ unread
      obtain ⟨written, all, same⟩ := unread
      rw [replaced] at all
      exact ⟨written, all, same⟩
  · cases taken

theorem Standing.le {state : LaunchState} {answered : Nat} (stands : launch.Standing state answered) :
    answered ≤ launch.answers := by
  have none (unanswered : answered = 0) : answered ≤ launch.answers := unanswered ▸ Nat.zero_le _
  unfold Standing at stands
  split at stands
  · exact none stands.2
  · exact none stands.2.2
  · exact none stands.2.2
  · exact none stands.2.2
  · exact none stands.2
  · exact none stands.2.2
  · exact Nat.le_of_eq stands

end Launch

namespace AsyncSystem

/-- A call of async_system: its handler is an error handler. -/
structure Request where
  launch : Launch
  handled : launch.hasErrorHandler = true
  /-- What fork returns, if it is called and does not fail. -/
  pid : Nat
  child : pid ≠ 0

structure Job where
  request : Request
  state : LaunchState
  errored : Bool
  /-- The number of the handler in the service. -/
  registration : Option Nat
  /-- Posted by on_error. -/
  posted : Nat
  /-- The calls that were posted and have been made. -/
  told : Nat

namespace Job

def start (request : Request) : Job := ⟨request, Launch.start, false, none, 0, 0⟩

/-- `async_system_handler::on_error` -/
def onError (job : Job) : Job := { job with errored := true, posted := job.posted + 1 }

/-- `async_system_handler::on_exit_handler`: without an effect behind an error. -/
def onExitHandler (job : Job) (handler : Nat) : Job :=
  { job with registration := if job.errored then none else some handler }

/-- Posted or registered. -/
def answered (job : Job) : Nat := job.posted + job.told + job.registration.elim 0 fun _ => 1

end Job

theorem ended_9 : processIsRunning 9 = false := by decide

theorem ended_13 : processIsRunning 13 = false := by decide

/-- SIGKILL -/
def killed : ExitStatus := ⟨9, ended_9⟩

/-- SIGPIPE -/
def brokenPipe : ExitStatus := ⟨13, ended_13⟩

/-- EXIT_FAILURE -/
def exitFailure : ExitStatus := ⟨256, SigchldService.ended_256⟩

/-- `child::~child` of a child that is not detached. No run goes on where it would hit another
process, which has got the number because someone else has reaped the child. -/
def destroy (kernel : Kernel) (child : Option ForkedChild) (pid : Nat) : Option (List SigchldEvent) :=
  if child.any ForkedChild.lives then some [.exits pid killed, .otherReaper pid]
  else if kernel.Running pid then none
  else some [.otherReaper pid]

namespace Job

/-- What a step of `invoke` does to the handler, to the processes and to the service. -/
def reports (job next : Job) (service : SigchldService) : Option (Job × List SigchldEvent) :=
  match job.state.parent with
  | .start =>
    if job.request.launch.Forks then some (next, [.spawn job.request.pid])
    else if job.request.launch.pipe.isSome then some (next, [])
    else some (next.onError, [])
  | .reaps => some (next.onError, [.otherReaper job.request.pid])
  | .succeeds =>
    -- the io_context_ref comes first, and then what raises an error
    let registered := next.onExitHandler service.registered.length
    if job.request.launch.onSuccess = [] then some (registered, [.asyncWait job.request.pid])
    else (destroy service.kernel job.state.child job.request.pid).map fun effects =>
      (registered.onError, .asyncWait job.request.pid :: effects)
  | _ => some (next, [])

def parentStep (job : Job) (service : SigchldService) : Option (Job × List SigchldEvent) :=
  (job.request.launch.parentStep job.state).bind fun state => job.reports { job with state := state } service

def childStep (job : Job) : Option (Job × List SigchldEvent) :=
  (job.request.launch.childStep job.state).map fun state =>
    let status := if job.state.child = some (.failed []) then exitFailure else brokenPipe
    ({ job with state := state }, if state.child = some (.ended false) then [.exits job.request.pid status] else [])

end Job

inductive JobEvent where
  | parent
  | child
  /-- The new image ends. -/
  | imageEnds (status : ExitStatus)
  /-- The io_context runs what on_error has posted. -/
  | runPosted
  deriving DecidableEq

def Job.step (job : Job) (service : SigchldService) : JobEvent → Option (Job × List SigchldEvent)
  | .parent => job.parentStep service
  | .child => job.childStep
  | .imageEnds status =>
    (job.request.launch.step job.state .imageEnds).map fun state => ({ job with state := state }, [.exits job.request.pid status])
  | .runPosted => if 0 < job.posted then some ({ job with posted := job.posted - 1, told := job.told + 1 }, []) else none

structure World where
  jobs : List Job
  service : SigchldService

inductive Event where
  | begin (request : Request)
  | job (index : Nat) (event : JobEvent)
  /-- The service, and processes that no job has launched. -/
  | service (event : SigchldEvent)

namespace World

/-- The child of a job ends with the steps of the job. -/
def Foreign (world : World) : SigchldEvent → Prop
  | .exits pid _ => ∀ job ∈ world.jobs, job.request.pid = pid → job.state.child.any ForkedChild.lives = false
  | _ => True

instance (world : World) : (event : SigchldEvent) → Decidable (world.Foreign event)
  | .exits pid _ =>
    inferInstanceAs (Decidable (∀ job ∈ world.jobs, job.request.pid = pid → job.state.child.any ForkedChild.lives = false))
  | .spawn _ | .otherReaper _ | .raise | .deliver | .asyncWait _ | .cancel | .runPosted _ | .advance => .isTrue trivial

def step (world : World) : Event → Option World
  | .begin request => some { world with jobs := world.jobs ++ [.start request] }
  | .job index event =>
    world.jobs[index]?.bind fun job =>
      (job.step world.service event).bind fun moved =>
        (run SigchldService.step world.service moved.2).map fun service => ⟨world.jobs.set index moved.1, service⟩
  | .service event =>
    if world.Foreign event then (world.service.step event).map fun service => { world with service := service } else none

def start (kernel : Kernel) : World := ⟨[], .start kernel⟩

/-- The calls of the handler of a job. -/
def calls (world : World) (job : Job) : Nat :=
  job.told + job.registration.elim 0 fun handler => (world.service.calls.map Call.handler).count handler

/-- No cancel finds a wait. -/
def Orderly (world : World) : Event → Prop
  | .service event => world.service.FindsNothing event
  | _ => True

instance (world : World) : (event : Event) → Decidable (world.Orderly event)
  | .service event => inferInstanceAs (Decidable (world.service.FindsNothing event))
  | .begin _ | .job _ _ => .isTrue trivial

/-- The launch is over, no child has the number, and there is no work and no signal. -/
def Settled (world : World) (job : Job) : Prop :=
  (∃ reports, job.state.parent = .returned reports) ∧ ¬ world.service.kernel.Running job.request.pid ∧
    job.posted = 0 ∧ world.service.Quiescent ∧ world.service.raised = false

end World

/-! ## What every run keeps -/

/-- The handler is posted or registered as often as the launch asks for by then, and registered for
the number of the own child. -/
structure Job.Sound (job : Job) (service : SigchldService) : Prop where
  stands : job.request.launch.Standing job.state job.answered
  errs : job.errored = true → 0 < job.posted + job.told
  known : ∀ handler, job.registration = some handler →
    ∃ child, service.registered[handler]? = some child ∧ child.pid = job.request.pid

namespace Job.Sound

variable {job next : Job} {service after : SigchldService} {effects : List SigchldEvent}

/-- The service goes on. -/
theorem later (sound : job.Sound service) (ran : run SigchldService.step service effects = some after) : job.Sound after where
  stands := sound.stands
  errs := sound.errs
  known handler registered := by
    obtain ⟨child, entry, same⟩ := sound.known handler registered
    exact ⟨child, SigchldService.getElem?_of_run ran entry, same⟩

theorem childStep (sound : job.Sound service) (moved : job.childStep = some (next, effects))
    (ran : run SigchldService.step service effects = some after) : next.Sound after := by
  obtain ⟨state, taken, same⟩ := Option.map_eq_some_iff.mp moved
  have sound := sound.later ran
  cases same
  exact ⟨sound.stands.childStep taken, sound.errs, sound.known⟩

theorem imageEnds (sound : job.Sound service) {status : ExitStatus}
    (moved : job.step service (.imageEnds status) = some (next, effects))
    (ran : run SigchldService.step service effects = some after) : next.Sound after := by
  obtain ⟨state, taken, same⟩ := Option.map_eq_some_iff.mp moved
  have sound := sound.later ran
  cases same
  exact ⟨sound.stands.imageEnds taken, sound.errs, sound.known⟩

theorem runPosted (sound : job.Sound service) (moved : job.step service .runPosted = some (next, effects))
    (ran : run SigchldService.step service effects = some after) : next.Sound after := by
  have sound := sound.later ran
  simp only [Job.step] at moved
  split at moved
  · rename_i posted
    cases moved
    have same : job.posted - 1 + (job.told + 1) = job.posted + job.told := by omega
    refine ⟨?_, ?_, sound.known⟩
    · have stands := sound.stands
      unfold Job.answered at stands ⊢
      dsimp only
      rw [same]
      exact stands
    · dsimp only
      rw [same]
      exact sound.errs
  · cases moved

/-- The handler has not been posted or registered before the launch is over. -/
theorem fresh (sound : job.Sound service) (unanswered : job.answered = 0) :
    job.errored = false ∧ job.posted = 0 ∧ job.told = 0 ∧ job.registration = none := by
  unfold Job.answered at unanswered
  have posted : job.posted = 0 := by omega
  have told : job.told = 0 := by omega
  refine ⟨?_, posted, told, ?_⟩
  · by_contra errored
    rw [Bool.not_eq_false] at errored
    have errs := sound.errs errored
    omega
  · cases registration : job.registration with
    | none => rfl
    | some handler =>
      rw [registration, Option.elim_some] at unanswered
      omega

/-- The launch is over. -/
theorem returns (sound : job.Sound after) (unanswered : job.answered = 0) {state : LaunchState} {reports : Bool}
    (parent : state.parent = .returned reports) :
    (job.request.launch.answers = 0 → Job.Sound { job with state := state } after) ∧
      (job.request.launch.answers = 1 → Job.Sound { job with state := state }.onError after) := by
  obtain ⟨-, posted, told, registration⟩ := sound.fresh unanswered
  constructor
  · intro none
    refine ⟨?_, sound.errs, sound.known⟩
    unfold Launch.Standing
    dsimp only
    rw [parent]
    exact unanswered.trans none.symm
  · intro once
    refine ⟨?_, fun _ => Nat.add_pos_left (Nat.succ_pos _) _, sound.known⟩
    unfold Launch.Standing
    dsimp only [Job.onError]
    rw [parent]
    simp [Job.answered, posted, told, registration, once]

theorem invoke (sound : job.Sound service) (parent : job.state.parent = .start)
    (moved : job.parentStep service = some (next, effects)) (ran : run SigchldService.step service effects = some after) :
    next.Sound after := by
  have later := sound.later ran
  have stands := sound.stands
  obtain ⟨state, taken, same⟩ := Option.bind_eq_some_iff.mp moved
  unfold Launch.Standing at stands
  unfold Launch.parentStep at taken
  unfold Job.reports at same
  rw [parent] at stands taken same
  obtain ⟨begins, unanswered⟩ := stands
  by_cases forks : job.request.launch.Forks
  · rw [begins, Launch.invoke_of_forks forks] at taken
    dsimp only at same
    rw [if_pos forks] at same
    cases taken
    cases same
    exact ⟨⟨forks, ⟨[], rfl, rfl⟩, unanswered⟩, later.errs, later.known⟩
  · obtain ⟨reports, finished⟩ := Launch.invoke_of_not_forks forks job.state
    have both := later.returns unanswered finished
    dsimp only at same
    rw [if_neg forks] at same
    cases taken
    by_cases piped : job.request.launch.pipe.isSome
    · rw [if_pos piped] at same
      cases same
      exact both.1 (by simp [Launch.answers, forks, piped])
    · rw [if_neg piped] at same
      cases same
      exact both.2 (by simp [Launch.answers, forks, piped])

theorem readHeader (sound : job.Sound service) (parent : job.state.parent = .readsHeader) {state : LaunchState}
    (taken : Launch.readHeader job.state = some state) : Job.Sound { job with state := state } service := by
  have stands := sound.stands
  unfold Launch.Standing at stands
  rw [parent] at stands
  obtain ⟨forks, unread, unanswered⟩ := stands
  obtain ⟨silent, succeeds⟩ | ⟨code, size, first, nonzero, reads⟩ := unread.readHeader taken
  · refine ⟨?_, sound.errs, sound.known⟩
    unfold Launch.Standing
    dsimp only
    rw [succeeds]
    exact ⟨forks, by simp [Launch.answers, forks, silent], unanswered⟩
  · split at reads
    · rename_i negative
      exact (sound.returns unanswered reads).1 (by simp [Launch.answers, forks, first, negative])
    · rename_i fits
      refine ⟨?_, sound.errs, sound.known⟩
      unfold Launch.Standing
      dsimp only
      rw [reads]
      exact ⟨nonzero, by simp [Launch.answers, forks, first, fits], unanswered⟩

/-- The handler is registered, and an error behind it is posted too. -/
theorem succeed (sound : job.Sound service) (parent : job.state.parent = .succeeds)
    (moved : job.parentStep service = some (next, effects)) (ran : run SigchldService.step service effects = some after) :
    next.Sound after := by
  have later := sound.later ran
  have stands := sound.stands
  obtain ⟨state, taken, same⟩ := Option.bind_eq_some_iff.mp moved
  unfold Launch.Standing at stands
  unfold Launch.parentStep at taken
  unfold Job.reports at same
  rw [parent] at stands taken same
  -- nothing has been answered up to here, so the handler has not been told anything
  obtain ⟨-, answers, unanswered⟩ := stands
  obtain ⟨errored, posted, told, registration⟩ := sound.fresh unanswered
  have last {rest : List SigchldEvent} (ran : run SigchldService.step service (.asyncWait job.request.pid :: rest) = some after) :
      ∃ child, after.registered[service.registered.length]? = some child ∧ child.pid = job.request.pid := by
    obtain ⟨middle, taken, ran⟩ := run_cons.mp ran
    have entry : middle.registered[service.registered.length]? = some (service.kernel.current job.request.pid) := by
      rw [SigchldService.asyncWait_of_step taken, SigchldService.registered_asyncWait]
      exact List.getElem?_concat_length
    exact ⟨_, SigchldService.getElem?_of_run ran entry, rfl⟩
  have finished : state.parent = .returned (job.request.launch.onSuccess ≠ []) := by
    cases taken
    unfold Launch.succeed
    split <;> simp_all
  dsimp only at same
  -- io_context_ref registers the handler before the other initializers get on_success
  by_cases succeeds : job.request.launch.onSuccess = []
  · rw [if_pos succeeds] at same answers
    cases same
    refine ⟨?_, later.errs, ?_⟩
    · unfold Launch.Standing
      simp [finished, Job.onExitHandler, Job.answered, errored, posted, told, answers]
    · intro handler registered
      simp only [Job.onExitHandler, errored, Bool.false_eq_true, if_false, Option.some.injEq] at registered
      exact registered ▸ last ran
  · -- behind the registration the error of an initializer is told by on_error, and the child is destroyed
    rw [if_neg succeeds] at same answers
    obtain ⟨kills, -, same⟩ := Option.map_eq_some_iff.mp same
    cases same
    refine ⟨?_, fun _ => Nat.add_pos_left (Nat.succ_pos _) _, ?_⟩
    · unfold Launch.Standing
      simp [finished, Job.onExitHandler, Job.onError, Job.answered, errored, posted, told, answers]
    · intro handler registered
      simp only [Job.onExitHandler, Job.onError, errored, Bool.false_eq_true, if_false, Option.some.injEq] at registered
      exact registered ▸ last ran

theorem parentStep (sound : job.Sound service) (moved : job.parentStep service = some (next, effects))
    (ran : run SigchldService.step service effects = some after) : next.Sound after := by
  have later := sound.later ran
  have stands := later.stands
  have handled := job.request.handled
  obtain ⟨state, taken, same⟩ := Option.bind_eq_some_iff.mp moved
  unfold Launch.Standing at stands
  unfold Launch.parentStep at taken
  unfold Job.reports at same
  -- one case for each statement of `invoke`; the steps in between leave the job as it is
  cases parent : job.state.parent with
  | start => exact sound.invoke parent moved ran
  | succeeds => exact sound.succeed parent moved ran
  | forked =>
    rw [parent] at stands taken same
    cases taken
    cases same
    exact ⟨stands, later.errs, later.known⟩
  | readsHeader =>
    rw [parent] at taken same
    cases same
    exact later.readHeader parent taken
  | readsMessage code size =>
    rw [parent] at stands taken same
    cases same
    obtain ⟨nonzero, once, unanswered⟩ := stands
    simp only [Launch.readMessage, handled, if_true] at taken
    split at taken
    · cases taken
      exact ⟨⟨once, unanswered⟩, later.errs, later.known⟩
    · cases taken
  | reaps =>
    rw [parent] at stands taken same
    cases taken
    cases same
    exact (later.returns stands.2 rfl).2 stands.1
  | returned reports =>
    rw [parent] at taken
    cases taken

theorem step (sound : job.Sound service) {event : JobEvent} (moved : job.step service event = some (next, effects))
    (ran : run SigchldService.step service effects = some after) : next.Sound after := by
  cases event with
  | parent => exact sound.parentStep moved ran
  | child => exact sound.childStep moved ran
  | imageEnds status => exact sound.imageEnds moved ran
  | runPosted => exact sound.runPosted moved ran

end Job.Sound

/-- A job cancels no wait. -/
theorem Job.cancels_nothing {job next : Job} {service : SigchldService} {effects : List SigchldEvent} {event : JobEvent}
    (moved : job.step service event = some (next, effects)) : .cancel ∉ effects := by
  cases event with
  | parent =>
    obtain ⟨state, taken, same⟩ := Option.bind_eq_some_iff.mp moved
    unfold Job.reports at same
    split at same
    · split at same
      · cases same
        simp
      · split at same <;> cases same <;> simp
    · cases same
      simp
    · dsimp only at same
      split at same
      · cases same
        simp
      · obtain ⟨kills, destroyed, same⟩ := Option.map_eq_some_iff.mp same
        cases same
        unfold destroy at destroyed
        split at destroyed
        · cases destroyed
          simp
        · split at destroyed <;> cases destroyed
          simp
    · cases same
      simp
  | child =>
    obtain ⟨state, taken, same⟩ := Option.map_eq_some_iff.mp moved
    cases same
    split <;> simp
  | imageEnds status =>
    obtain ⟨state, taken, same⟩ := Option.map_eq_some_iff.mp moved
    cases same
    simp
  | runPosted =>
    simp only [Job.step] at moved
    split at moved
    · cases moved
      simp
    · cases moved

theorem admits_of_not_cancel {service : SigchldService} {effects : List SigchldEvent} (others : .cancel ∉ effects) :
    Admits SigchldService.step SigchldService.FindsNothing service effects := by
  induction effects generalizing service with
  | nil => trivial
  | cons event rest ih =>
    obtain ⟨here, later⟩ := not_or.mp (List.mem_cons.not.mp others)
    exact ⟨fun cancels => absurd cancels.symm here, fun _ _ => ih later⟩

namespace World

structure Sound (world : World) : Prop where
  service : world.service.Sound
  jobs : ∀ job ∈ world.jobs, job.Sound world.service

theorem Sound.step {world next : World} {event : Event} (sound : world.Sound) (taken : world.step event = some next) :
    next.Sound := by
  have runs {effects : List SigchldEvent} {service : SigchldService}
      (ran : run SigchldService.step world.service effects = some service) : service.Sound :=
    run_invariant SigchldService.Sound.preserved sound.service admits_true ran
  cases event with
  | begin request =>
    cases taken
    refine ⟨sound.service, fun job member => ?_⟩
    cases List.mem_append.mp member with
    | inl old => exact sound.jobs job old
    | inr new =>
      cases List.mem_singleton.mp new
      exact ⟨⟨rfl, rfl⟩, nofun, nofun⟩
  | job index event =>
    obtain ⟨job, entry, taken⟩ := Option.bind_eq_some_iff.mp taken
    obtain ⟨⟨after, effects⟩, moved, taken⟩ := Option.bind_eq_some_iff.mp taken
    obtain ⟨service, ran, same⟩ := Option.map_eq_some_iff.mp taken
    cases same
    refine ⟨runs ran, fun other member => ?_⟩
    cases List.mem_or_eq_of_mem_set member with
    | inl old => exact (sound.jobs other old).later ran
    | inr new =>
      cases new
      exact (sound.jobs job (List.mem_of_getElem? entry)).step moved ran
  | service event =>
    simp only [World.step] at taken
    split at taken
    · obtain ⟨service, moved, same⟩ := Option.map_eq_some_iff.mp taken
      cases same
      have ran : run SigchldService.step world.service [event] = some service := run_cons.mpr ⟨service, moved, rfl⟩
      exact ⟨runs ran, fun job member => (sound.jobs job member).later ran⟩
    · cases taken

theorem Sound.start (kernel : Kernel) : (World.start kernel).Sound where
  service := .start kernel
  jobs _ member := absurd member List.not_mem_nil

/-- A step of the world is a run of the service, and only its own cancels are cancels of that. -/
theorem service_of_step {world next : World} {event : Event} (orderly : world.Orderly event)
    (taken : world.step event = some next) :
    ∃ effects, Admits SigchldService.step SigchldService.FindsNothing world.service effects ∧
      run SigchldService.step world.service effects = some next.service := by
  cases event with
  | begin request =>
    cases taken
    exact ⟨[], trivial, rfl⟩
  | job index event =>
    obtain ⟨job, entry, taken⟩ := Option.bind_eq_some_iff.mp taken
    obtain ⟨⟨after, effects⟩, moved, taken⟩ := Option.bind_eq_some_iff.mp taken
    obtain ⟨service, ran, same⟩ := Option.map_eq_some_iff.mp taken
    cases same
    exact ⟨effects, admits_of_not_cancel (Job.cancels_nothing moved), ran⟩
  | service event =>
    simp only [World.step] at taken
    split at taken
    · obtain ⟨service, moved, same⟩ := Option.map_eq_some_iff.mp taken
      cases same
      exact ⟨[event], (admits_cons moved).mpr ⟨orderly, trivial⟩, run_cons.mpr ⟨service, moved, rfl⟩⟩
    · cases taken

theorem preserves_serves : Preserves step Orderly fun world => world.service.Serves := by
  intro world event next serves orderly taken
  obtain ⟨effects, admitted, ran⟩ := service_of_step orderly taken
  exact run_invariant SigchldService.Serves.preserved serves admitted ran

end World

end AsyncSystem

namespace Launch

/-- pipe(2) and fcntl(2) work, the first message of the child has a size, and behind a success no
initializer raises an error. -/
def Once (launch : Launch) : Prop :=
  launch.pipe = none ∧ (launch.Forks → (∀ size, launch.firstSize = some size → ¬ size.toInt < 0) ∧
    (launch.firstSize = none → launch.onSuccess = []))

theorem answers_eq_one_iff (launch : Launch) : launch.answers = 1 ↔ launch.Once := by
  unfold answers Once
  by_cases forks : launch.Forks
  · rw [if_pos forks]
    cases first : launch.firstSize with
    | none => simp [forks.1, forks]
    | some size => simp [forks.1, forks]
  · rw [if_neg forks]
    cases piped : launch.pipe with
    | none => simp [forks]
    | some failure => simp

end Launch

namespace AsyncSystem

theorem World.Sound.calls_le_answered {world : World} (sound : world.Sound) {job : Job} : world.calls job ≤ job.answered := by
  unfold World.calls Job.answered
  cases job.registration with
  | none => simp
  | some handler =>
    have once := sound.service.once handler
    unfold SigchldService.uses SigchldService.results at once
    rw [List.map_append, List.count_append] at once
    simp only [Option.elim_some]
    split at once <;> omega

/-- In every run of any number of async_system calls with one service, a handler is called at most as
often as its launch asks for, and exactly as often where everything has come to rest, unless a cancel
has found a wait. That is once if and only if the pipe for errors can be made, the first error that the
child writes has a size, and no initializer raises an error in on_success. -/
theorem answered_once_iff (kernel : Kernel) (events : List Event) (world : World)
    (reached : run World.step (World.start kernel) events = some world) (job : Job) (member : job ∈ world.jobs) :
    world.calls job ≤ job.request.launch.answers ∧
      (Admits World.step World.Orderly (World.start kernel) events → world.Settled job →
        world.calls job = job.request.launch.answers) ∧
      (job.request.launch.answers = 1 ↔ job.request.launch.Once) := by
  have sound : world.Sound :=
    run_invariant (fun _ _ _ sound _ taken => World.Sound.step sound taken) (.start kernel) admits_true reached
  have stands := (sound.jobs job member).stands
  refine ⟨Nat.le_trans sound.calls_le_answered stands.le, fun admitted settled => ?_, Launch.answers_eq_one_iff _⟩
  have serves := run_invariant World.preserves_serves (.start kernel) admitted reached
  obtain ⟨⟨reports, finished⟩, ended, posted, quiescent, calm⟩ := settled
  unfold Launch.Standing at stands
  rw [finished] at stands
  rw [← stands]
  unfold World.calls Job.answered
  cases registration : job.registration with
  | none => simp [posted]
  | some handler =>
    obtain ⟨child, entry, number⟩ := (sound.jobs job member).known handler registration
    have told : (world.service.calls.map Call.handler).count handler = 1 := by
      apply serves.count_of_calm quiescent (List.getElem?_eq_some_iff.mp entry).1
      intro waits
      obtain ⟨receiver, -, rfl, ⟨-, other, same, first⟩, running⟩ := serves.running_of_waiting quiescent calm waits
      rw [entry] at same
      cases same
      rw [← first, number] at running
      exact ended running
    simp [posted, told]

/-- The launch of a program that starts. -/
def starting (onSuccess : List RaisedError) : Request :=
  ⟨⟨true, none, [], none, [], none, [], onSuccess, false⟩, rfl, 7, Nat.succ_ne_zero 6⟩

/-- The launch succeeds, the program ends and its SIGCHLD is handled. -/
def succeeding (index : Nat) : List Event :=
  [.begin (starting []), .job index .parent, .job index .child, .job index .parent, .job index .parent, .job index .parent,
    .job index (.imageEnds exitFailure), .service .deliver, .service (.runPosted 0), .service .advance, .service .advance,
    .service .advance]

/-- Two calls one after the other, whose children get the same number. -/
theorem answered_once_iff_succeeding :
    ∃ world first second, run World.step (World.start fun _ => []) (succeeding 0 ++ succeeding 1) = some world ∧
      world.jobs = [first, second] ∧ world.service.registered = [⟨7, 1⟩, ⟨7, 2⟩] ∧ world.calls first = 1 ∧
        world.calls second = 1 := by
  have settles := fun job member => (answered_once_iff (fun _ => []) (succeeding 0 ++ succeeding 1) _ rfl job member).2.1
  refine ⟨_, _, _, rfl, rfl, rfl, ?_, ?_⟩
  · exact settles _ List.mem_cons_self (by decide) ⟨⟨_, rfl⟩, by decide, rfl, by decide, rfl⟩
  · exact settles _ (List.mem_cons_of_mem _ List.mem_cons_self) (by decide) ⟨⟨_, rfl⟩, by decide, rfl, by decide, rfl⟩

/-- An initializer that raises an error in on_success: the handler is called for the error, and again
for the child, which the destructor has killed and reaped. -/
example : (run World.step (World.start fun _ => [])
    [.begin (starting [⟨⟨5#32, by decide⟩, []⟩]), .job 0 .parent, .job 0 .child, .job 0 .parent, .job 0 .parent, .job 0 .parent,
      .job 0 .runPosted, .service .deliver, .service (.runPosted 0), .service .advance]).map
    (fun world => (world.jobs.map world.calls, world.service.calls)) =
      some ([2], [⟨0, -1, .system 10⟩]) := by rfl

end AsyncSystem
end BoostProcess.V1.Posix
