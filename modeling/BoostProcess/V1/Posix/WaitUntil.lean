import BoostProcess.Library.Transition
import BoostProcess.V2.ErrorCode
import BoostProcess.V2.ExitCode

/-! wait_until on POSIX: waiting for a child up to a point in time.

With sigtimedwait the wait for SIGCHLD has a timeout. Without it a process is forked that only
sleeps until that time, so that its exit is a SIGCHLD too; it is killed and reaped in the end. A
signal may end it before the time, and one may interrupt the wait for it, which is not made again.
-/

set_option autoImplicit false

namespace BoostProcess.V1.Posix.WaitUntil

open Transition
open BoostProcess.V2 (Errno ExitStatus processIsRunning)

/-- A process of which this one is the parent, or nothing any more. -/
inductive Proc where
  | running
  | zombie (status : ExitStatus)
  | reaped
  deriving DecidableEq

/-- What happens to the argument ec. -/
inductive Ec where
  | kept
  | cleared
  | failed (errno : Errno)
  deriving DecidableEq

structure Result where
  value : Bool
  ec : Ec
  deriving DecidableEq

/-- The call that wait_until is about to make. -/
inductive Pc where
  | fork
  /-- `waitpid(timeout_pid, &status, WNOHANG)` -/
  | watch
  /-- sigtimedwait or sigwait -/
  | signal
  /-- `waitpid(p.pid, &status, WNOHANG)` -/
  | check
  /-- `timed_out = Clock::now() >= time_out` -/
  | clock
  /-- The destructor of child_cleaner_t, behind the return. -/
  | kill (result : Result)
  | collect (result : Result)
  | returned (result : Result)
  deriving DecidableEq

structure State where
  child : Proc
  /-- The process `timeout_pid`. -/
  sleeper : Proc
  /-- A SIGCHLD that nobody has taken. -/
  pending : Bool
  /-- The time has come. -/
  late : Bool
  status : Int
  exitCode : Option Int
  /-- The status of the child that waitpid has given to this call. -/
  took : Option Int
  /-- The cleaner has sent SIGKILL to a pid that is nobody's any more. -/
  stale : Bool
  /-- The sleeping process was killed before the time had come. -/
  cut : Bool
  pc : Pc
  deriving DecidableEq

inductive Event where
  /-- The next call returns. -/
  | call
  | forkFails (errno : Errno)
  /-- EINTR -/
  | interrupted
  /-- waitpid reports of the child that it has stopped. -/
  | report (status : Int)
  | exit (status : ExitStatus)
  /-- The sleeping process has slept long enough. -/
  | expire
  /-- A signal ends the sleeping process. -/
  | dies (status : ExitStatus)
  | tick
  /-- A SIGCHLD goes to a handler. -/
  | handled
  /-- Someone else reaps the child. -/
  | steal
  | stealSleeper
  deriving DecidableEq

def exitSuccess : ExitStatus := ⟨0, by decide⟩

def sigkill : ExitStatus := ⟨9, by decide⟩

variable (hasSigtimedwait : Bool)

def start (child : Proc) (pending late : Bool) : State where
  child := child
  sleeper := .reaped
  pending := pending
  late := late
  status := 0
  exitCode := none
  took := none
  stale := false
  cut := false
  pc := if hasSigtimedwait then .signal else .fork

/-- Where the loop begins again. -/
def Pc.loop : Pc := if hasSigtimedwait then .signal else .watch

def Pc.leave (result : Result) : Pc := if hasSigtimedwait then .returned result else .kill result

/-- The waitpid for the sleeping process: a result that is not 0 ends the call, if the status is
one of a process that has ended. -/
def watch (state : State) : State :=
  match state.sleeper with
  | .running => { state with pc := .signal }
  | .zombie status => { state with sleeper := .reaped, status := status.status, pc := .kill ⟨false, .kept⟩ }
  -- -1 leaves the status as it was
  | .reaped => { state with pc := if processIsRunning state.status then .signal else .kill ⟨false, .kept⟩ }

def check (state : State) : State :=
  match state.child with
  | .running => { state with pc := .clock }
  | .zombie status =>
    { state with
      child := .reaped
      status := status.status
      took := some status.status
      exitCode := some status.status
      pc := .leave hasSigtimedwait ⟨true, .cleared⟩ }
  | .reaped => { state with pc := .leave hasSigtimedwait ⟨true, .failed .ECHILD⟩ }

def kill (state : State) (result : Result) : State :=
  match state.sleeper with
  | .running => { state with sleeper := .zombie sigkill, pending := true, pc := .collect result }
  | .zombie _ => { state with pc := .collect result }
  | .reaped => { state with stale := true, pc := .collect result }

def call (state : State) : Option State :=
  match state.pc with
  | .fork => some { state with sleeper := .running, pc := .watch }
  | .watch => some (watch state)
  | .signal =>
    if state.pending then some { state with pending := false, pc := .check }
    -- sigtimedwait has waited long enough
    else if hasSigtimedwait ∧ state.late then some { state with pc := .check }
    else none
  | .check => some (check hasSigtimedwait state)
  | .clock =>
    some { state with pc := if state.late then .leave hasSigtimedwait ⟨false, .kept⟩ else .loop hasSigtimedwait }
  | .kill result => some (kill state result)
  | .collect result =>
    if state.sleeper = .running then none else some { state with sleeper := .reaped, pc := .returned result }
  | .returned _ => none

def step (state : State) : Event → Option State
  | .call => call hasSigtimedwait state
  | .forkFails errno => if state.pc = .fork then some { state with pc := .returned ⟨true, .failed errno⟩ } else none
  | .interrupted =>
    if state.pc = .check then some { state with pc := .loop hasSigtimedwait }
    else if state.pc = .signal ∧ hasSigtimedwait then some { state with pc := .check }
    else
      match state.pc with
      -- the destructor goes on without the process
      | .collect result => if state.sleeper = .reaped then none else some { state with pc := .returned result }
      | _ => none
  | .report status =>
    if state.pc = .check ∧ state.child = .running ∧ processIsRunning status then
      some { state with status := status, pc := .loop hasSigtimedwait }
    else none
  | .exit status => if state.child = .running then some { state with child := .zombie status, pending := true } else none
  | .expire =>
    if state.sleeper = .running ∧ state.late then some { state with sleeper := .zombie exitSuccess, pending := true } else none
  | .dies status =>
    if state.sleeper = .running then
      some { state with sleeper := .zombie status, pending := true, cut := state.cut || !state.late }
    else none
  | .tick => some { state with late := true }
  | .handled => if state.pending then some { state with pending := false } else none
  | .steal =>
    match state.child with
    | .zombie _ => some { state with child := .reaped }
    | _ => none
  | .stealSleeper =>
    match state.sleeper with
    | .zombie _ => some { state with sleeper := .reaped }
    | _ => none

/-! ## What a step can do -/

/-- One case for each result of a call, and one for each other event. -/
inductive Moves : State → Event → State → Prop
  | fork {state : State} (here : state.pc = .fork) : Moves state .call { state with sleeper := .running, pc := .watch }
  | asleep {state : State} (here : state.pc = .watch) (sleeps : state.sleeper = .running) :
      Moves state .call { state with pc := .signal }
  | awake {state : State} {status : ExitStatus} (here : state.pc = .watch) (exited : state.sleeper = .zombie status) :
      Moves state .call { state with sleeper := .reaped, status := status.status, pc := .kill ⟨false, .kept⟩ }
  | watchFails {state : State} (here : state.pc = .watch) (gone : state.sleeper = .reaped) :
      Moves state .call { state with pc := if processIsRunning state.status then .signal else .kill ⟨false, .kept⟩ }
  | signal {state : State} (here : state.pc = .signal) (pending : state.pending = true) :
      Moves state .call { state with pending := false, pc := .check }
  | timeout {state : State} (here : state.pc = .signal) (timed : hasSigtimedwait = true) (late : state.late = true) :
      Moves state .call { state with pc := .check }
  | childRuns {state : State} (here : state.pc = .check) (runs : state.child = .running) :
      Moves state .call { state with pc := .clock }
  | childEnded {state : State} {status : ExitStatus} (here : state.pc = .check) (ended : state.child = .zombie status) :
      Moves state .call { state with
        child := .reaped
        status := status.status
        took := some status.status
        exitCode := some status.status
        pc := .leave hasSigtimedwait ⟨true, .cleared⟩ }
  | childGone {state : State} (here : state.pc = .check) (gone : state.child = .reaped) :
      Moves state .call { state with pc := .leave hasSigtimedwait ⟨true, .failed .ECHILD⟩ }
  | timedOut {state : State} (here : state.pc = .clock) (late : state.late = true) :
      Moves state .call { state with pc := .leave hasSigtimedwait ⟨false, .kept⟩ }
  | early {state : State} (here : state.pc = .clock) (early : state.late = false) :
      Moves state .call { state with pc := .loop hasSigtimedwait }
  | kill {state : State} {result : Result} (here : state.pc = .kill result) :
      Moves state .call (WaitUntil.kill state result)
  | collect {state : State} {result : Result} (here : state.pc = .collect result) (ended : state.sleeper ≠ .running) :
      Moves state .call { state with sleeper := .reaped, pc := .returned result }
  | forkFails {state : State} {errno : Errno} (here : state.pc = .fork) :
      Moves state (.forkFails errno) { state with pc := .returned ⟨true, .failed errno⟩ }
  | checkAgain {state : State} (here : state.pc = .check) : Moves state .interrupted { state with pc := .loop hasSigtimedwait }
  | signalFails {state : State} (here : state.pc = .signal) (timed : hasSigtimedwait = true) :
      Moves state .interrupted { state with pc := .check }
  | uncollected {state : State} {result : Result} (here : state.pc = .collect result) (left : state.sleeper ≠ .reaped) :
      Moves state .interrupted { state with pc := .returned result }
  | report {state : State} {status : Int} (here : state.pc = .check) (runs : state.child = .running)
      (stopped : processIsRunning status = true) :
      Moves state (.report status) { state with status := status, pc := .loop hasSigtimedwait }
  | exit {state : State} {status : ExitStatus} (runs : state.child = .running) :
      Moves state (.exit status) { state with child := .zombie status, pending := true }
  | expire {state : State} (sleeps : state.sleeper = .running) (late : state.late = true) :
      Moves state .expire { state with sleeper := .zombie exitSuccess, pending := true }
  | dies {state : State} {status : ExitStatus} (sleeps : state.sleeper = .running) :
      Moves state (.dies status) { state with
        sleeper := .zombie status
        pending := true
        cut := state.cut || !state.late }
  | tick {state : State} : Moves state .tick { state with late := true }
  | handled {state : State} : Moves state .handled { state with pending := false }
  | steal {state : State} {status : ExitStatus} (ended : state.child = .zombie status) :
      Moves state .steal { state with child := .reaped }
  | stealSleeper {state : State} {status : ExitStatus} (ended : state.sleeper = .zombie status) :
      Moves state .stealSleeper { state with sleeper := .reaped }

variable {hasSigtimedwait}

theorem call_moves {state next : State} (taken : call hasSigtimedwait state = some next) :
    Moves hasSigtimedwait state .call next := by
  unfold call at taken
  split at taken
  · cases taken
    exact .fork ‹_›
  · cases taken
    unfold watch
    split
    · exact .asleep ‹_› ‹_›
    · exact .awake ‹_› ‹_›
    · exact .watchFails ‹_› ‹_›
  · split at taken
    · cases taken
      exact .signal ‹_› ‹_›
    · split at taken
      · rename_i here _ timed
        cases taken
        exact .timeout here timed.1 timed.2
      · cases taken
  · cases taken
    unfold check
    split
    · exact .childRuns ‹_› ‹_›
    · exact .childEnded ‹_› ‹_›
    · exact .childGone ‹_› ‹_›
  · cases taken
    split
    · exact .timedOut ‹_› ‹_›
    · rename_i here early
      exact .early here (Bool.eq_false_iff.mpr early)
  · cases taken
    exact .kill ‹_›
  · split at taken
    · cases taken
    · cases taken
      exact .collect ‹_› ‹_›
  · cases taken

theorem step_moves {state next : State} {event : Event} (taken : step hasSigtimedwait state event = some next) :
    Moves hasSigtimedwait state event next := by
  cases event with
  | call => exact call_moves taken
  | forkFails errno =>
    obtain ⟨here, rfl⟩ := Option.ite_none_right_eq_some.mp taken |>.imp_right Option.some.inj
    exact .forkFails here
  | interrupted =>
    simp only [step] at taken
    split at taken
    · cases taken
      exact .checkAgain ‹_›
    · split at taken
      · rename_i waits
        cases taken
        exact .signalFails waits.1 waits.2
      · split at taken
        · obtain ⟨left, rfl⟩ := Option.ite_none_left_eq_some.mp taken |>.imp_right Option.some.inj
          exact .uncollected ‹_› left
        · cases taken
  | report status =>
    obtain ⟨⟨here, runs, stopped⟩, rfl⟩ := Option.ite_none_right_eq_some.mp taken |>.imp_right Option.some.inj
    exact .report here runs stopped
  | exit status =>
    obtain ⟨runs, rfl⟩ := Option.ite_none_right_eq_some.mp taken |>.imp_right Option.some.inj
    exact .exit runs
  | expire =>
    obtain ⟨⟨sleeps, late⟩, rfl⟩ := Option.ite_none_right_eq_some.mp taken |>.imp_right Option.some.inj
    exact .expire sleeps late
  | dies status =>
    obtain ⟨sleeps, rfl⟩ := Option.ite_none_right_eq_some.mp taken |>.imp_right Option.some.inj
    exact .dies sleeps
  | tick =>
    cases taken
    exact .tick
  | handled =>
    obtain ⟨-, rfl⟩ := Option.ite_none_right_eq_some.mp taken |>.imp_right Option.some.inj
    exact .handled
  | steal =>
    simp only [step] at taken
    split at taken
    · cases taken
      exact .steal ‹_›
    · cases taken
  | stealSleeper =>
    simp only [step] at taken
    split at taken
    · cases taken
      exact .stealSleeper ‹_›
    · cases taken

/-! ## What every run keeps -/

/-- What the call is going to return. -/
def Pc.result : Pc → Option Result
  | .kill result | .collect result | .returned result => some result
  | _ => none

/-- Neither before the first call nor behind the loop. -/
def Pc.Inside (pc : Pc) : Prop := pc.result = none ∧ pc ≠ .fork

theorem inside_watch : Pc.watch.Inside := ⟨rfl, nofun⟩

theorem inside_signal : Pc.signal.Inside := ⟨rfl, nofun⟩

theorem inside_check : Pc.check.Inside := ⟨rfl, nofun⟩

theorem inside_clock : Pc.clock.Inside := ⟨rfl, nofun⟩

variable (hasSigtimedwait) in
structure Sound (state : State) : Prop where
  stored : state.exitCode = state.took
  reaped : ∀ status, state.took = some status → state.child = .reaped ∧ processIsRunning status = false
  reported : state.took ≠ none ↔ state.pc.result = some ⟨true, .cleared⟩
  /-- The call does not give up early by itself. -/
  gaveUp : ∀ result, state.pc.result = some result → result.value = false →
    result.ec = .kept ∧ (state.late = true ∨ state.cut = true)
  known : ∀ result, state.pc.result = some result → result.value = true → result.ec ≠ .kept
  slept : hasSigtimedwait = false → state.pc.Inside → state.sleeper = .running ∨ state.late = true ∨ state.cut = true
  alone : hasSigtimedwait = true ∨ state.pc = .fork → state.sleeper = .reaped
  timed : hasSigtimedwait = true → state.pc ≠ .fork ∧ state.pc ≠ .watch
  ended : ∀ result, state.pc = .collect result → state.sleeper ≠ .running
  collected : ∀ result, state.pc = .returned result → state.sleeper ≠ .running

theorem sound_start (child : Proc) (pending late : Bool) : Sound hasSigtimedwait (start hasSigtimedwait child pending late) := by
  cases hasSigtimedwait <;> constructor <;> simp [start, Pc.result, Pc.Inside]

namespace Sound

variable {state : State}

/-- A call of the loop that is not the last one. -/
theorem goesOn (sound : Sound hasSigtimedwait state) (here : state.pc.Inside) {pc : Pc} (inside : pc.Inside)
    (loop : hasSigtimedwait = true → pc ≠ .watch) (pending : Bool) (status : Int) :
    Sound hasSigtimedwait { state with pc := pc, pending := pending, status := status } := by
  obtain ⟨stored, reaped, reported, gaveUp, known, slept, alone, timed, ended, collected⟩ := sound
  constructor <;> grind [Pc.result, Pc.Inside]

/-- The loop is left without a status of the child. -/
theorem leaves (sound : Sound hasSigtimedwait state) (here : state.pc.Inside) {result : Result} (other : result.ec ≠ .cleared)
    (late : result.value = false → result.ec = .kept ∧ (state.late = true ∨ state.cut = true))
    (known : result.value = true → result.ec ≠ .kept) :
    Sound hasSigtimedwait { state with pc := .leave hasSigtimedwait result } := by
  obtain ⟨stored, reaped, reported, gaveUp, known, slept, alone, timed, ended, collected⟩ := sound
  constructor <;> grind [Pc.result, Pc.Inside, Pc.leave]

/-- What happens outside of the call. -/
theorem around (sound : Sound hasSigtimedwait state) {child sleeper : Proc} {late cut : Bool}
    (gone : state.child = .reaped → child = .reaped)
    (collected : state.sleeper = .reaped → sleeper = .reaped)
    (slept : state.sleeper = .running ∧ sleeper ≠ .running → state.late = true ∨ cut = true)
    (awake : sleeper = .running → state.sleeper = .running) (later : state.late = true → late = true)
    (before : state.cut = true → cut = true) (pending : Bool) :
    Sound hasSigtimedwait { state with child := child, sleeper := sleeper, late := late, pending := pending, cut := cut } := by
  obtain ⟨stored, reaped, reported, gaveUp, known, slept, alone, timed, ended, collected⟩ := sound
  constructor <;> grind

/-- A call behind the loop. -/
theorem closes (sound : Sound hasSigtimedwait state) {result : Result} (here : state.pc.result = some result) (pc : Pc)
    (same : pc.result = some result) (sleeper : Proc) (kept : state.sleeper = .reaped → sleeper = .reaped)
    (ended : ∀ result, pc = .collect result → sleeper ≠ .running)
    (collected : ∀ result, pc = .returned result → sleeper ≠ .running)
    (pending stale : Bool) :
    Sound hasSigtimedwait { state with sleeper := sleeper, pending := pending, stale := stale, pc := pc } where
  stored := sound.stored
  reaped := sound.reaped
  reported := by
    have reported := sound.reported
    rwa [here, ← same] at reported
  gaveUp _ outcome := sound.gaveUp _ (here.trans (same.symm.trans outcome))
  known _ outcome := sound.known _ (here.trans (same.symm.trans outcome))
  slept _ inside := nomatch same.symm.trans inside.1
  alone
    | .inl timed => kept (sound.alone (.inl timed))
    | .inr forked => nomatch same.symm.trans (congrArg Pc.result forked)
  timed _ := ⟨fun forked => (nomatch same.symm.trans (congrArg Pc.result forked)),
    fun watches => (nomatch same.symm.trans (congrArg Pc.result watches))⟩
  ended := ended
  collected := collected

/-- Before the loop nothing is known of the child. -/
theorem untaken (sound : Sound hasSigtimedwait state) (before : state.pc.result = none) : state.took = none := by
  by_contra took
  have reported := sound.reported.mp took
  rw [before] at reported
  cases reported

theorem waits (sound : Sound hasSigtimedwait state) (here : state.pc = .fork ∨ state.pc = .watch) : hasSigtimedwait = false := by
  cases hasSigtimedwait with
  | false => rfl
  | true => exact absurd here (not_or.mpr (sound.timed rfl))

theorem forked (sound : Sound hasSigtimedwait state) (here : state.pc = .fork) :
    Sound hasSigtimedwait { state with sleeper := .running, pc := .watch } where
  stored := sound.stored
  reaped := sound.reaped
  reported := iff_of_false (fun took => took (sound.untaken (congrArg Pc.result here))) nofun
  gaveUp := nofun
  known := nofun
  slept _ _ := .inl rfl
  alone
    | .inl timed => nomatch timed.symm.trans (sound.waits (.inl here))
    | .inr elsewhere => nomatch elsewhere
  timed timed := nomatch timed.symm.trans (sound.waits (.inl here))
  ended := nofun
  collected := nofun

theorem unforked (sound : Sound hasSigtimedwait state) (here : state.pc = .fork) (errno : Errno) :
    Sound hasSigtimedwait { state with pc := .returned ⟨true, .failed errno⟩ } where
  stored := sound.stored
  reaped := sound.reaped
  reported := iff_of_false (fun took => took (sound.untaken (congrArg Pc.result here))) nofun
  gaveUp _ outcome wrong := by
    cases outcome
    cases wrong
  known _ outcome _ := by
    cases outcome
    exact nofun
  slept _ inside := nomatch inside.1
  alone _ := sound.alone (.inr here)
  timed timed := nomatch timed.symm.trans (sound.waits (.inl here))
  ended := nofun
  collected _ _ := by
    rw [sound.alone (.inr here)]
    exact nofun

/-- The child has exited with this status. -/
theorem takes (sound : Sound hasSigtimedwait state) (exited : ExitStatus) :
    Sound hasSigtimedwait { state with
      child := .reaped
      status := exited.status
      took := some exited.status
      exitCode := some exited.status
      pc := .leave hasSigtimedwait ⟨true, .cleared⟩ } := by
  have outcome : (Pc.leave hasSigtimedwait ⟨true, .cleared⟩).result = some ⟨true, .cleared⟩ := by
    cases hasSigtimedwait <;> rfl
  constructor
  case stored => rfl
  case reaped =>
    intro status took
    cases took
    exact ⟨rfl, exited.ended⟩
  case reported => exact iff_of_true nofun outcome
  case gaveUp =>
    intro result same wrong
    -- the result is true, so the call has not given up
    cases outcome.symm.trans same
    cases wrong
  case known =>
    intro result same _
    cases outcome.symm.trans same
    exact nofun
  case slept => exact fun _ inside => nomatch outcome.symm.trans inside.1
  case alone =>
    -- with sigtimedwait nothing was forked, without it the fork has been left behind
    rintro (timed | forked)
    · exact sound.alone (.inl timed)
    · exact nomatch outcome.symm.trans (congrArg Pc.result forked)
  case timed =>
    intro timed
    rw [timed]
    exact ⟨nofun, nofun⟩
  case ended =>
    intro result collects
    cases hasSigtimedwait <;> cases collects
  case collected =>
    intro result returned
    cases hasSigtimedwait with
    | false => cases returned
    | true =>
      rw [sound.alone (.inl rfl)]
      exact nofun

end Sound

theorem loop_inside : (Pc.loop hasSigtimedwait).Inside := by
  cases hasSigtimedwait <;> exact ⟨rfl, nofun⟩

theorem loop_ne_watch (timed : hasSigtimedwait = true) : Pc.loop hasSigtimedwait ≠ .watch := by
  rw [timed]
  exact nofun

theorem sound_step : Preserves (step hasSigtimedwait) (fun _ _ => True) (Sound hasSigtimedwait) := by
  intro state event next sound _ taken
  have inside {pc : Pc} (here : state.pc = pc) (inside : pc.Inside) : state.pc.Inside := here ▸ inside
  cases step_moves taken with
  | fork here => exact sound.forked here
  | asleep here sleeps => exact sound.goesOn (inside here inside_watch) inside_signal (fun _ => nofun) _ _
  | @awake exited here woken =>
    -- the sleeping process has exited, so its time is over, or a signal has cut it short
    have late := (sound.slept (sound.waits (.inr here)) (inside here inside_watch)).resolve_left (by rw [woken]; exact nofun)
    have counted := sound.goesOn (inside here inside_watch) inside_watch (fun timed => absurd here (sound.timed timed).2)
      state.pending exited.status
    have left := @Sound.leaves _ _ counted inside_watch ⟨false, .kept⟩ nofun (fun _ => ⟨rfl, late⟩) nofun
    rw [sound.waits (.inr here)] at left ⊢
    exact left.closes rfl (.kill ⟨false, .kept⟩) rfl .reaped (fun _ => rfl) nofun nofun state.pending state.stale
  | watchFails here gone =>
    have waits := sound.waits (.inr here)
    -- somebody else has reaped the sleeping process
    have late := sound.slept waits (inside here inside_watch)
    split
    · exact sound.goesOn (inside here inside_watch) inside_signal (fun _ => nofun) _ _
    · have left := @Sound.leaves _ _ sound (inside here inside_watch) ⟨false, .kept⟩ nofun
        (fun _ => ⟨rfl, late.resolve_left (by rw [gone]; exact nofun)⟩) nofun
      rw [waits] at left
      rw [waits]
      exact left
  | signal here pending => exact sound.goesOn (inside here inside_signal) inside_check (fun _ => nofun) _ _
  | timeout here timed late => exact sound.goesOn (inside here inside_signal) inside_check (fun _ => nofun) _ _
  | childRuns here runs => exact sound.goesOn (inside here inside_check) inside_clock (fun _ => nofun) _ _
  | childEnded here ended => exact sound.takes _
  | childGone here gone => exact sound.leaves (inside here inside_check) nofun nofun fun _ => nofun
  | timedOut here late => exact sound.leaves (inside here inside_clock) nofun (fun _ => ⟨rfl, .inl late⟩) nofun
  | early here early => exact sound.goesOn (inside here inside_clock) loop_inside loop_ne_watch _ _
  | @kill result here =>
    -- the kill ends the sleeping process, finds it ended, or goes to a number that was given back
    have outcome := congrArg Pc.result here
    cases sleeper : state.sleeper with
    | running =>
      have killed := sound.closes outcome (.collect result) rfl (.zombie sigkill) (fun gone => nomatch gone.symm.trans sleeper)
        (fun _ _ => nofun) nofun true state.stale
      rwa [WaitUntil.kill, sleeper]
    | zombie status =>
      have killed := sound.closes outcome (.collect result) rfl (.zombie status) (fun gone => nomatch gone.symm.trans sleeper)
        (fun _ _ => nofun) nofun state.pending state.stale
      rwa [WaitUntil.kill, sleeper]
    | reaped =>
      have killed := sound.closes outcome (.collect result) rfl .reaped (fun _ => rfl) (fun _ _ => nofun) nofun state.pending true
      rwa [WaitUntil.kill, sleeper]
  | collect here ended =>
    exact sound.closes (congrArg Pc.result here) (.returned _) rfl .reaped (fun _ => rfl) nofun (fun _ _ => nofun) _ _
  | forkFails here => exact sound.unforked here _
  | checkAgain here => exact sound.goesOn (inside here inside_check) loop_inside loop_ne_watch _ _
  | signalFails here timed => exact sound.goesOn (inside here inside_signal) inside_check (fun _ => nofun) _ _
  | @uncollected result here left =>
    exact sound.closes (congrArg Pc.result here) (.returned _) rfl _ id nofun (fun _ _ => sound.ended result here) _ _
  | report here runs stopped => exact sound.goesOn (inside here inside_check) loop_inside loop_ne_watch _ _
  | exit runs => exact sound.around (by simp [runs]) id (by simp) id id id _
  | expire sleeps late => exact sound.around id (by simp [sleeps]) (fun _ => .inl late) (by simp) id id _
  | dies sleeps =>
    apply sound.around id (by simp [sleeps]) _ (by simp) id (by simp +contextual)
    intro _
    -- before its time only a signal ends the sleeping process
    cases state.late with
    | true => exact .inl rfl
    | false => exact .inr (by simp)
  | tick => exact sound.around id id (by simp) id (fun _ => rfl) id _
  | handled => exact sound.around id id (by simp) id id id _
  | steal ended => exact sound.around (fun _ => rfl) id (by simp) id id id _
  | stealSleeper ended => exact sound.around id (fun _ => rfl) (by simp [ended]) (by simp) id id _

/-- A status that has been taken is one with which the child has exited. -/
theorem took_of_run {state final : State} {events : List Event} {status : Int}
    (reached : run (step hasSigtimedwait) state events = some final) (took : final.took = some status) :
    state.took = some status ∨ ∃ exited : ExitStatus, exited.status = status ∧
      (state.child = .zombie exited ∨ .exit exited ∈ events) := by
  induction events generalizing state with
  | nil =>
    cases reached
    exact .inl took
  | cons event rest ih =>
    obtain ⟨next, taken, later⟩ := run_cons.mp reached
    have moved := step_moves taken
    cases ih later with
    | inl earlier =>
      -- only waitpid in the loop takes a status, and then the child was a zombie with it
      cases moved with
      | childEnded here ended => exact .inr ⟨_, Option.some.inj earlier, .inl ended⟩
      | @kill result here =>
        apply Or.inl
        rw [← earlier]
        unfold WaitUntil.kill
        split <;> rfl
      | _ => exact .inl earlier
    | inr exits =>
      obtain ⟨exited, same, origin⟩ := exits
      refine .inr ⟨exited, same, ?_⟩
      cases origin with
      | inr member => exact .inr (List.mem_cons_of_mem event member)
      | inl ended =>
        -- a child that is a zombie now was one before, or has just exited
        cases moved with
        | exit runs =>
          obtain rfl := Proc.zombie.inj ended
          exact .inr List.mem_cons_self
        | childEnded here ended => cases ended
        | steal gone => cases ended
        | @kill result here =>
          apply Or.inl
          rw [← ended]
          unfold WaitUntil.kill
          split <;> rfl
        | _ => exact .inl ended

/-- The sleeping process does not end before the time by itself. -/
theorem cut_of_run {state final : State} {events : List Event} (reached : run (step hasSigtimedwait) state events = some final)
    (cut : final.cut = true) : state.cut = true ∨ ∃ status, .dies status ∈ events := by
  induction events generalizing state with
  | nil =>
    cases reached
    exact .inl cut
  | cons event rest ih =>
    obtain ⟨next, taken, later⟩ := run_cons.mp reached
    obtain earlier | ⟨status, member⟩ := ih later
    · cases step_moves taken with
      | dies sleeps => exact .inr ⟨_, List.mem_cons_self⟩
      | @kill result here =>
        apply Or.inl
        rw [← earlier]
        unfold WaitUntil.kill
        split <;> rfl
      | _ => exact .inl earlier
    · exact .inr ⟨status, List.mem_cons_of_mem event member⟩

def Pc.collects : Pc → Bool
  | .collect _ => true
  | _ => false

/-- No signal interrupts the wait of the destructor. -/
def Collects (state : State) (event : Event) : Prop := event = .interrupted → state.pc.collects = false

instance (state : State) (event : Event) : Decidable (Collects state event) := inferInstanceAs (Decidable (_ → _))

theorem collected_step : Preserves (step hasSigtimedwait) Collects fun state =>
    Sound hasSigtimedwait state ∧ ∀ result, state.pc = .returned result → state.sleeper = .reaped := by
  intro state event next kept collects taken
  obtain ⟨sound, collected⟩ := kept
  refine ⟨sound_step state event next sound trivial taken, fun result returned => ?_⟩
  have alone := sound.alone
  cases step_moves taken with
  | uncollected here left =>
    have uninterrupted := collects rfl
    rw [here] at uninterrupted
    cases uninterrupted
  | @kill result here =>
    unfold WaitUntil.kill at returned
    split at returned <;> cases returned
  | _ => grind [Pc.leave, Pc.loop]

/-- What the result says about the child: with true and a clear ec the status is that with which
it has exited; otherwise there is none, and false is only returned late or when something else has
ended the sleeping process. -/
inductive Tells (child : Proc) (events : List Event) (final : State) : Result → Prop
  | ended {exited : ExitStatus} (stored : final.exitCode = some exited.status) (reaped : final.child = .reaped)
      (own : child = .zombie exited ∨ .exit exited ∈ events) : Tells child events final ⟨true, .cleared⟩
  | failed {errno : Errno} (stored : final.exitCode = none) (took : final.took = none) :
      Tells child events final ⟨true, .failed errno⟩
  | late (stored : final.exitCode = none) (took : final.took = none)
      (late : final.late = true ∨ ∃ status, .dies status ∈ events) : Tells child events final ⟨false, .kept⟩

/-- Whatever happens to the child, to the sleeping process and to signals: the result tells what
has become of the child. The sleeping process does not run on, and is reaped unless a signal
interrupts the wait for it. -/
theorem returned_of_run (child : Proc) (pending late : Bool) (events : List Event) (final : State) (result : Result)
    (reached : run (step hasSigtimedwait) (start hasSigtimedwait child pending late) events = some final)
    (returned : final.pc = .returned result) :
    Tells child events final result ∧ final.sleeper ≠ .running ∧
      (Admits (step hasSigtimedwait) Collects (start hasSigtimedwait child pending late) events → final.sleeper = .reaped) := by
  have initial := @sound_start hasSigtimedwait child pending late
  have before (result : Result) : (start hasSigtimedwait child pending late).pc ≠ .returned result := by
    cases hasSigtimedwait <;> exact nofun
  have sound := run_invariant sound_step initial admits_true reached
  have outcome : final.pc.result = some result := congrArg Pc.result returned
  refine ⟨?_, sound.collected result returned, fun admitted => ?_⟩
  swap
  · exact (run_invariant collected_step ⟨initial, fun result returns => absurd returns (before result)⟩ admitted reached).2 result
      returned
  -- what was taken from the child decides the result
  cases took : final.took with
  | some status =>
    have same : result = ⟨true, .cleared⟩ := by
      have reported := sound.reported.mp (by rw [took]; exact nofun)
      rw [outcome] at reported
      exact Option.some.inj reported
    cases took_of_run reached took with
    | inl earlier => cases earlier
    | inr exits =>
      obtain ⟨exited, rfl, origin⟩ := exits
      rw [same]
      exact .ended (sound.stored.trans took) (sound.reaped _ took).1 origin
  | none =>
    have stored := sound.stored.trans took
    have known := sound.known result outcome
    obtain ⟨value, ec⟩ := result
    cases value with
    | false =>
      obtain ⟨rfl, late⟩ := sound.gaveUp _ outcome rfl
      exact .late stored took (late.imp_right fun cut => (cut_of_run reached cut).resolve_left (by simp [start]))
    | true =>
      cases ec with
      | kept => exact absurd rfl (known rfl)
      | cleared => exact absurd took (sound.reported.mpr outcome)
      | failed errno => exact .failed stored took

theorem exitFailure_ended : processIsRunning 256 = false := by decide

def exitFailure : ExitStatus := ⟨256, exitFailure_ended⟩

/-- The child exits in time and the sleeping process is killed; the SIGCHLD of another one has
gone to a handler. -/
def childInTime : List Event := [.call, .call, .handled, .exit exitFailure, .call, .call, .call, .call]

theorem returned_of_run_childInTime :
    let final : State := ⟨.reaped, .reaped, true, false, 256, some 256, some 256, false, false, .returned ⟨true, .cleared⟩⟩
    Tells .running childInTime final ⟨true, .cleared⟩ ∧ final.sleeper = .reaped := by
  intro final
  obtain ⟨told, -, collected⟩ := @returned_of_run false .running true false childInTime final ⟨true, .cleared⟩ (by decide) rfl
  exact ⟨told, collected (by decide)⟩

/-- A signal interrupts the wait of the destructor: the sleeping process stays a zombie. -/
example : (run (step false) (start false .running true false) (childInTime.dropLast ++ [.interrupted])).map State.sleeper =
    some (.zombie sigkill) := by decide

/-- A signal kills the sleeping process: the call gives up before the time. -/
example : (run (step false) (start false .running false false) [.call, .dies sigkill, .call, .call, .call]).map
    (fun final => (final.pc, final.late)) = some (.returned ⟨false, .kept⟩, false) := by decide

/-! ## The pid that is killed -/

/-- The pid of the sleeping process has not been given back before SIGKILL is sent to it. -/
def Fresh (state : State) : Prop :=
  state.stale = false ∧
    (state.sleeper = .reaped → state.pc = .fork ∨ ∃ result, state.pc = .collect result ∨ state.pc = .returned result)

/-- The loop does not find that the sleeping process has exited, and nobody else reaps it
before it has been killed. -/
def Spares (state : State) : Event → Prop
  | .call => state.pc = .watch → state.sleeper = .running
  | .stealSleeper => state.pc = .fork ∨ ∃ result, state.pc = .collect result ∨ state.pc = .returned result
  | _ => True

theorem fresh_step {state next : State} {event : Event} (fresh : Fresh state) (taken : step false state event = some next) :
    Fresh next ↔ Spares state event := by
  obtain ⟨unspoiled, kept⟩ := fresh
  cases step_moves taken with
  | kill here => grind [Fresh, Spares, WaitUntil.kill]
  | _ => grind [Fresh, Spares, Pc.leave, Pc.loop]

theorem spoiled_step {state next : State} {event : Event} (spoiled : ¬ Fresh state) (taken : step false state event = some next) :
    ¬ Fresh next := by
  cases step_moves taken with
  | kill here => grind [Fresh, WaitUntil.kill]
  | _ => grind [Fresh, Pc.leave, Pc.loop]

/-- Where a process is forked, SIGKILL goes to a pid that has been given back if and only if the
call has found by waitpid that the sleeping process has exited, or someone else has reaped it. -/
theorem fresh_iff_spares (child : Proc) (pending late : Bool) (events : List Event) (final : State) (result : Result)
    (reached : run (step false) (start false child pending late) events = some final) (returned : final.pc = .returned result) :
    final.stale = false ↔ Admits (step false) Spares (start false child pending late) events := by
  have initial : Fresh (start false child pending late) := ⟨rfl, fun _ => .inl rfl⟩
  rw [← last_iff_admits (fun _ _ _ => fresh_step) (fun _ _ _ => spoiled_step) initial reached]
  constructor
  · exact fun unspoiled => ⟨unspoiled, fun _ => .inr ⟨result, .inr returned⟩⟩
  · exact fun fresh => fresh.1

theorem fresh_iff_spares_childInTime :
    (false = false ↔ Admits (step false) Spares (start false .running true false) childInTime) :=
  fresh_iff_spares .running true false childInTime
    ⟨.reaped, .reaped, true, false, 256, some 256, some 256, false, false, .returned ⟨true, .cleared⟩⟩ ⟨true, .cleared⟩
      (by decide) rfl

/-! ## Waiting no longer than asked for -/

variable (hasSigtimedwait) in
/-- Once the time has come, the next call returns, or the sleeping process exits first. -/
def GoesOn (state : State) : Prop :=
  (∃ result, state.pc = .returned result) ∨
    ∃ event ∈ [Event.call, .expire], step hasSigtimedwait { state with late := true } event ≠ none

variable (hasSigtimedwait) in
/-- While sigwait waits and the sleeping process has exited, the SIGCHLD goes to no handler; nor
does the call go on waiting, without one, when nobody is left to send it. -/
def Heeds (state : State) : Event → Prop
  | .handled => state.pc = .signal → hasSigtimedwait = true ∨ state.sleeper = .running
  | .call => state.pc = .watch → state.sleeper = .reaped → processIsRunning state.status = true → state.pending = true
  | _ => True

/-- Only sigwait can be waited for in vain. -/
theorem goesOn_iff {state : State} (sound : Sound hasSigtimedwait state) :
    GoesOn hasSigtimedwait state ↔
      (state.pc = .signal → state.pending = true ∨ hasSigtimedwait = true ∨ state.sleeper = .running) := by
  unfold GoesOn
  constructor
  · intro goes here
    cases goes with
    | inl returned =>
      obtain ⟨result, returned⟩ := returned
      rw [here] at returned
      cases returned
    | inr goes =>
      obtain ⟨event, member, enabled⟩ := goes
      rcases List.mem_pair.mp member with rfl | rfl
      · by_contra none
        simp only [not_or, Bool.not_eq_true] at none
        exact enabled (by simp [step, call, here, none.1, none.2.1])
      · by_contra none
        simp only [not_or] at none
        exact enabled (by simp [step, none.2.2])
  · intro wakes
    cases here : state.pc with
    | returned result => exact .inl ⟨result, rfl⟩
    | signal =>
      refine .inr ?_
      rcases wakes here with pending | timed | sleeps
      · exact ⟨.call, by simp, by simp [step, call, pending]⟩
      · refine ⟨.call, by simp, ?_⟩
        cases state.pending <;> simp [step, call, timed]
      · exact ⟨.expire, by simp, by simp [step, sleeps]⟩
    | collect result => exact .inr ⟨.call, by simp, by simp [step, call, sound.ended result here]⟩
    | _ => exact .inr ⟨.call, by simp, by simp [step, call]⟩

theorem goesOn_step {state next : State} {event : Event} (sound : Sound hasSigtimedwait state)
    (goes : GoesOn hasSigtimedwait state) (taken : step hasSigtimedwait state event = some next) :
    GoesOn hasSigtimedwait next ↔ Heeds hasSigtimedwait state event := by
  rw [goesOn_iff (sound_step state event next sound trivial taken)]
  rw [goesOn_iff sound] at goes
  have alone := sound.alone
  have timed := sound.timed
  cases step_moves taken with
  | kill here => grind [Heeds, WaitUntil.kill]
  | _ => grind [Heeds, Pc.leave, Pc.loop]

/-- The call can always go on once the time has come, if and only if no SIGCHLD is taken from
sigwait that nobody will send again. -/
theorem goesOn_iff_heeds (child : Proc) (pending late : Bool) (events : List Event) (final : State)
    (reached : run (step hasSigtimedwait) (start hasSigtimedwait child pending late) events = some final) :
    Always (step hasSigtimedwait) (GoesOn hasSigtimedwait) (start hasSigtimedwait child pending late) events ↔
      Admits (step hasSigtimedwait) (Heeds hasSigtimedwait) (start hasSigtimedwait child pending late) events := by
  have initial := @sound_start hasSigtimedwait child pending late
  apply always_iff_admits (fun _ _ _ sound _ taken => sound_step _ _ _ sound trivial taken) _ initial _ reached
  · exact fun _ _ _ => goesOn_step
  · rw [goesOn_iff initial]
    cases hasSigtimedwait <;> simp [start]

theorem goesOn_iff_heeds_childInTime :
    Always (step false) (GoesOn false) (start false .running true false) childInTime ↔
      Admits (step false) (Heeds false) (start false .running true false) childInTime :=
  goesOn_iff_heeds .running true false childInTime
    ⟨.reaped, .reaped, true, false, 256, some 256, some 256, false, false, .returned ⟨true, .cleared⟩⟩ (by decide)

/-- The calls that are left, if each goes on. -/
def Pc.rank : Pc → Nat
  | .fork => 7
  | .watch => 6
  | .signal => 5
  | .check => 4
  | .clock => 3
  | .kill _ => 2
  | .collect _ => 1
  | .returned _ => 0

/-- EINTR, or a child that has only stopped. -/
def Event.interrupts : Event → Bool
  | .interrupted | .report _ => true
  | _ => false

theorem rank_step {state next : State} {event : Event} (late : state.late = true)
    (taken : step hasSigtimedwait state event = some next) :
    next.late = true ∧ (if event = .call then 1 else 0) + next.pc.rank ≤ state.pc.rank + if event.interrupts then 2 else 0 := by
  have loop : (Pc.loop hasSigtimedwait).rank ≤ 6 := by cases hasSigtimedwait <;> decide
  have leave (result : Result) : (Pc.leave hasSigtimedwait result).rank ≤ 2 := by
    cases hasSigtimedwait
    · exact Nat.le_refl 2
    · exact Nat.zero_le 2
  cases step_moves taken with
  | kill here =>
    have stays : ∀ result, (WaitUntil.kill state result).late = true ∧ (WaitUntil.kill state result).pc = .collect result := by
      intro result
      unfold WaitUntil.kill
      split <;> exact ⟨late, rfl⟩
    refine ⟨(stays _).1, ?_⟩
    rw [(stays _).2, here]
    simp [Pc.rank, Event.interrupts]
  | _ => grind [Pc.rank, Event.interrupts]

/-- Once the time has come, no more than seven calls are made, and two for each interruption. -/
theorem calls_le (state : State) (late : state.late = true) (events : List Event) (final : State)
    (reached : run (step hasSigtimedwait) state events = some final) :
    events.count .call + final.pc.rank ≤ 7 + 2 * events.countP Event.interrupts := by
  have bounded : events.count .call + final.pc.rank ≤ state.pc.rank + 2 * events.countP Event.interrupts := by
    induction events generalizing state with
    | nil =>
      cases reached
      simp
    | cons event rest ih =>
      obtain ⟨next, taken, later⟩ := run_cons.mp reached
      obtain ⟨stays, once⟩ := rank_step late taken
      have others := ih next stays later
      have twice : (if event.interrupts then 2 else 0) = 2 * if event.interrupts then 1 else 0 := by split <;> rfl
      rw [List.count_cons, List.countP_cons]
      simp only [beq_iff_eq]
      omega
  have most : state.pc.rank ≤ 7 := by cases state.pc <;> simp [Pc.rank]
  omega

/-- The time has come from the beginning: sigtimedwait, waitpid and the clock. -/
theorem calls_le_expired :
    let final : State := ⟨.running, .reaped, false, true, 0, none, none, false, false, .returned ⟨false, .kept⟩⟩
    [Event.call, .call, .call].count .call + final.pc.rank ≤ 7 + 2 * [Event.call, .call, .call].countP Event.interrupts :=
  @calls_le true (start true .running false true) rfl [.call, .call, .call] _ (by decide)

end BoostProcess.V1.Posix.WaitUntil
