import BoostProcess.Library.Transition
import Mathlib.Logic.Function.Basic

/-! wait, wait_for and wait_until for a group on Windows: each call takes messages from the one completion port of
the job until nothing is left in it.

The clock counts nanoseconds and is not set in between. All messages of the job but JOB_OBJECT_MSG_ACTIVE_PROCESS_ZERO
come at any time.
-/

set_option autoImplicit false

namespace BoostProcess.V1.Windows.WaitGroup

open Transition

inductive Message where
  /-- `JOB_OBJECT_MSG_ACTIVE_PROCESS_ZERO` -/
  | activeProcessZero
  | other
  deriving DecidableEq

/-- What `wait_impl` returns: false without an error, true, or false with an error. -/
inductive Result where
  | nothingLeft
  | timedOut
  | failed
  deriving DecidableEq

inductive Pc where
  /-- In front of `get_queued_completion_status`. -/
  | enter
  /-- In it, for ever or until this time. -/
  | asleep (deadline : Option Nat)
  /-- `query_information_job_object` -/
  | query
  /-- Behind the check of the message. -/
  | clock
  | returned (result : Result)
  deriving DecidableEq

/-- `::boost::winapi::infinite` -/
def infinite : Nat := 4294967295

/-- The nanoseconds of a millisecond. -/
def ticks : Nat := 1000000

/-- What the caller asks for. -/
inductive Asked where
  /-- `wait` -/
  | ever
  /-- The `rel_time` of `wait_for`, or what is left until the `timeout_time` of `wait_until` by its clock. -/
  | timed (duration : Int)
  deriving DecidableEq

/-- The `wait_time` that `wait_impl` is given: `duration_cast` cuts off what is no whole millisecond. -/
def Asked.waitTime : Asked → Int
  | .ever => infinite
  | .timed duration => duration.tdiv ticks

structure Call where
  asked : Asked
  began : Nat
  waitTime : Int
  startTime : Nat
  messages : Nat := 0
  /-- The ticks that have gone by outside of `get_queued_completion_status`. -/
  away : Nat := 0
  pc : Pc := .enter
  deriving DecidableEq

structure World where
  /-- `ActiveProcesses` -/
  active : Nat
  queue : List Message := []
  clock : Nat := 0
  calls : Nat → Option Call := fun _ => none

/-- `static_cast<DWORD_>(wait_time)` -/
def dword (waitTime : Int) : Nat := (waitTime % 4294967296).toNat

def deadline (now : Nat) (waitTime : Int) : Option Nat :=
  if dword waitTime = infinite then none else some (now + dword waitTime * ticks)

namespace Call

def start (asked : Asked) (now : Nat) : Call :=
  { asked := asked, began := now, waitTime := asked.waitTime, startTime := now }

/-- `duration_cast<milliseconds>(now - start_time)` -/
def passed (call : Call) (now : Nat) : Nat := (now - call.startTime) / ticks

/-- The end of the loop's body. `static_cast<int>(infinite)` is -1, and `wait_time` has more bits than that. -/
def reduce (call : Call) (now : Nat) : Call :=
  if call.waitTime = -1 then { call with pc := .enter }
  else
    let waitTime := call.waitTime - call.passed now
    { call with waitTime := waitTime, startTime := now, pc := if waitTime ≤ 0 then .returned .timedOut else .enter }

def goesBy (call : Call) (count : Nat) : Call :=
  match call.pc with
  | .asleep _ => call
  | _ => { call with away := call.away + count }

/-- The message is that of the job, whose handle is the key. -/
def take (call : Call) : Message → Call
  | .activeProcessZero => { call with messages := call.messages + 1, pc := .query }
  | .other => { call with messages := call.messages + 1, pc := .clock }

end Call

inductive Event where
  /-- The process of a member's or of a launch gets into the job. -/
  | join
  /-- One exits; told says whether the message comes, if it was the last one. -/
  | exit (told : Bool)
  | notify
  | pass (count : Nat)
  | begin (name : Nat) (asked : Asked)
  /-- The next statement of the call. -/
  | advance (name : Nat)
  /-- `wait_timeout` -/
  | expire (name : Nat)
  | fail (name : Nat)
  deriving DecidableEq

namespace World

def set (world : World) (name : Nat) (call : Call) : World :=
  { world with calls := Function.update world.calls name (some call) }

def advance (world : World) (name : Nat) (call : Call) : Option World :=
  match call.pc with
  | .enter => some (world.set name { call with pc := .asleep (deadline world.clock call.waitTime) })
  | .asleep _ =>
    match world.queue with
    | [] => none
    | message :: rest => some (({ world with queue := rest }).set name (call.take message))
  | .query => some (world.set name { call with pc := if world.active = 0 then .returned .nothingLeft else .clock })
  | .clock => some (world.set name (call.reduce world.clock))
  | .returned _ => none

def exit (world : World) (told : Bool) : World :=
  { world with
    active := world.active - 1
    queue := if world.active = 1 ∧ told then world.queue ++ [.activeProcessZero] else world.queue }

end World

def step (world : World) : Event → Option World
  | .join => some { world with active := world.active + 1 }
  | .exit told => if 0 < world.active then some (world.exit told) else none
  | .notify => some { world with queue := world.queue ++ [.other] }
  | .pass count =>
    some { world with clock := world.clock + count, calls := fun name => (world.calls name).map (·.goesBy count) }
  | .begin name asked =>
    match world.calls name with
    | none => some (world.set name (.start asked world.clock))
    | some _ => none
  | .advance name => (world.calls name).bind (world.advance name)
  | .expire name =>
    match world.calls name with
    | some call =>
      match call.pc with
      | .asleep (some time) => if time ≤ world.clock then some (world.set name { call with pc := .returned .timedOut }) else none
      | _ => none
    | none => none
  | .fail name =>
    match world.calls name with
    | some call =>
      match call.pc with
      | .asleep _ | .query => some (world.set name { call with pc := .returned .failed })
      | _ => none
    | none => none

/-! ## What a step can do -/

variable {world next : World} {name : Nat} {call : Call}

/-- One case for each statement of a call, and one for each other event. -/
inductive Moves (world : World) : Event → World → Prop
  | join : Moves world .join { world with active := world.active + 1 }
  | exit {told : Bool} (left : 0 < world.active) : Moves world (.exit told) (world.exit told)
  | notify : Moves world .notify { world with queue := world.queue ++ [.other] }
  | pass {count : Nat} : Moves world (.pass count)
      { world with clock := world.clock + count, calls := fun name => (world.calls name).map (·.goesBy count) }
  | begin {name : Nat} {asked : Asked} (fresh : world.calls name = none) :
      Moves world (.begin name asked) (world.set name (.start asked world.clock))
  | enter {name : Nat} {call : Call} (entry : world.calls name = some call) (here : call.pc = .enter) :
      Moves world (.advance name) (world.set name { call with pc := .asleep (deadline world.clock call.waitTime) })
  | take {name : Nat} {call : Call} {stop : Option Nat} {message : Message} {rest : List Message}
      (entry : world.calls name = some call) (here : call.pc = .asleep stop) (queued : world.queue = message :: rest) :
      Moves world (.advance name) (({ world with queue := rest }).set name (call.take message))
  | nothingLeft {name : Nat} {call : Call} (entry : world.calls name = some call) (here : call.pc = .query)
      (gone : world.active = 0) : Moves world (.advance name) (world.set name { call with pc := .returned .nothingLeft })
  | left {name : Nat} {call : Call} (entry : world.calls name = some call) (here : call.pc = .query)
      (left : world.active ≠ 0) : Moves world (.advance name) (world.set name { call with pc := .clock })
  | reduce {name : Nat} {call : Call} (entry : world.calls name = some call) (here : call.pc = .clock) :
      Moves world (.advance name) (world.set name (call.reduce world.clock))
  | expire {name time : Nat} {call : Call} (entry : world.calls name = some call) (here : call.pc = .asleep (some time))
      (late : time ≤ world.clock) : Moves world (.expire name) (world.set name { call with pc := .returned .timedOut })
  | fail {name : Nat} {call : Call} (entry : world.calls name = some call)
      (here : (∃ stop, call.pc = .asleep stop) ∨ call.pc = .query) :
      Moves world (.fail name) (world.set name { call with pc := .returned .failed })

theorem advance_moves (entry : world.calls name = some call) (taken : world.advance name call = some next) :
    Moves world (.advance name) next := by
  unfold World.advance at taken
  cases here : call.pc with
  | enter =>
    rw [here] at taken
    cases taken
    exact .enter entry here
  | asleep stop =>
    rw [here] at taken
    cases queued : world.queue with
    | nil =>
      rw [queued] at taken
      cases taken
    | cons message rest =>
      rw [queued] at taken
      cases taken
      exact .take entry here queued
  | query =>
    rw [here] at taken
    by_cases gone : world.active = 0
    · rw [if_pos gone] at taken
      cases taken
      exact .nothingLeft entry here gone
    · rw [if_neg gone] at taken
      cases taken
      exact .left entry here gone
  | clock =>
    rw [here] at taken
    cases taken
    exact .reduce entry here
  | returned result =>
    rw [here] at taken
    cases taken

theorem step_moves {event : Event} (taken : step world event = some next) : Moves world event next := by
  cases event with
  | join =>
    cases taken
    exact .join
  | exit told =>
    obtain ⟨left, rfl⟩ := Option.ite_none_right_eq_some.mp taken |>.imp_right Option.some.inj
    exact .exit left
  | notify =>
    cases taken
    exact .notify
  | pass count =>
    cases taken
    exact .pass
  | begin name asked =>
    simp only [step] at taken
    split at taken
    · cases taken
      exact .begin ‹_›
    · cases taken
  | advance name =>
    obtain ⟨call, entry, taken⟩ := Option.bind_eq_some_iff.mp taken
    exact advance_moves entry taken
  | expire name =>
    simp only [step] at taken
    split at taken
    · split at taken
      · obtain ⟨late, rfl⟩ := Option.ite_none_right_eq_some.mp taken |>.imp_right Option.some.inj
        exact .expire ‹_› ‹_› late
      · cases taken
    · cases taken
  | fail name =>
    simp only [step] at taken
    split at taken
    · split at taken
      · cases taken
        exact .fail ‹_› (.inl ⟨_, ‹_›⟩)
      · cases taken
        exact .fail ‹_› (.inr ‹_›)
      · cases taken
    · cases taken

@[simp] theorem set_self (world : World) (name : Nat) (call : Call) : (world.set name call).calls name = some call :=
  Function.update_self ..

theorem set_of_ne (world : World) (call : Call) {name other : Nat} (distinct : other ≠ name) :
    (world.set name call).calls other = world.calls other :=
  Function.update_of_ne distinct ..

/-- What one call does by itself. -/
inductive Turns (clock : Nat) (call : Call) : Call → Prop
  | enter (here : call.pc = .enter) : Turns clock call { call with pc := .asleep (deadline clock call.waitTime) }
  | take {stop : Option Nat} (here : call.pc = .asleep stop) (message : Message) : Turns clock call (call.take message)
  | nothingLeft (here : call.pc = .query) : Turns clock call { call with pc := .returned .nothingLeft }
  | left (here : call.pc = .query) : Turns clock call { call with pc := .clock }
  | reduce (here : call.pc = .clock) : Turns clock call (call.reduce clock)
  | expire {time : Nat} (here : call.pc = .asleep (some time)) (late : time ≤ clock) :
      Turns clock call { call with pc := .returned .timedOut }
  | fail : Turns clock call { call with pc := .returned .failed }

/-- A condition on a call and the clock holds in every run, if it does of a call that begins and is kept by what the
call does and by the clock. -/
theorem call_of_run {holds : Nat → Call → Prop}
    (begins : ∀ clock asked, holds clock (.start asked clock))
    (turns : ∀ clock call after, holds clock call → Turns clock call after → holds clock after)
    (passes : ∀ clock call count, holds clock call → holds (clock + count) (call.goesBy count))
    {world final : World} {events : List Event} (idle : ∀ name, world.calls name = none)
    (reached : run step world events = some final) (entry : final.calls name = some call) : holds final.clock call := by
  have preserved :
      Preserves step (fun _ _ => True) fun world => ∀ name call, world.calls name = some call → holds world.clock call := by
    intro world event next all _ taken name call entry
    -- only the call of one name changes; the others keep what holds
    have changed {other : World} {subject : Nat} {after : Call} (clock : other.clock = world.clock)
        (calls : other.calls = world.calls) (same : next = other.set subject after) (new : holds world.clock after) :
        holds next.clock call := by
      subst same
      rw [show (other.set subject after).clock = world.clock from clock]
      by_cases here : name = subject
      · subst here
        cases (set_self other name after).symm.trans entry
        exact new
      · rw [set_of_ne _ _ here, calls] at entry
        exact all name call entry
    cases step_moves taken with
    | join => exact all name call entry
    | exit left => exact all name call entry
    | notify => exact all name call entry
    | pass =>
      -- time goes by for all calls at once
      obtain ⟨before, former, rfl⟩ := Option.map_eq_some_iff.mp entry
      exact passes _ _ _ (all name before former)
    | begin fresh => exact changed rfl rfl rfl (begins _ _)
    | enter former here => exact changed rfl rfl rfl (turns _ _ _ (all _ _ former) (.enter here))
    | @take _ _ _ _ rest former here queued =>
      exact @changed { world with queue := rest } _ _ rfl rfl rfl (turns _ _ _ (all _ _ former) (.take here _))
    | nothingLeft former here gone => exact changed rfl rfl rfl (turns _ _ _ (all _ _ former) (.nothingLeft here))
    | left former here left => exact changed rfl rfl rfl (turns _ _ _ (all _ _ former) (.left here))
    | reduce former here => exact changed rfl rfl rfl (turns _ _ _ (all _ _ former) (.reduce here))
    | expire former here late => exact changed rfl rfl rfl (turns _ _ _ (all _ _ former) (.expire here late))
    | fail former here => exact changed rfl rfl rfl (turns _ _ _ (all _ _ former) .fail)
  have initial (name : Nat) (call : Call) (entry : world.calls name = some call) : holds world.clock call := by
    rw [idle] at entry
    cases entry
  exact run_invariant preserved initial admits_true reached name call entry

/-! ## The time -/

namespace Call

theorem passed_le (call : Call) (now : Nat) : call.passed now * ticks ≤ now - call.startTime := Nat.div_mul_le_self ..

theorem lt_passed (call : Call) (now : Nat) : now - call.startTime < call.passed now * ticks + ticks := by
  unfold passed ticks
  omega

theorem reduce_cases (call : Call) (now : Nat) :
    (call.waitTime = -1 ∧ call.reduce now = { call with pc := .enter }) ∨
      (call.waitTime ≠ -1 ∧ call.waitTime ≤ call.passed now ∧ call.reduce now =
        { call with waitTime := call.waitTime - call.passed now, startTime := now, pc := .returned .timedOut }) ∨
      (call.waitTime ≠ -1 ∧ call.passed now < call.waitTime ∧ call.reduce now =
        { call with waitTime := call.waitTime - call.passed now, startTime := now, pc := .enter }) := by
  unfold reduce
  by_cases endless : call.waitTime = -1
  · exact .inl ⟨endless, if_pos endless⟩
  · right
    rw [if_neg endless]
    by_cases spent : call.waitTime - call.passed now ≤ 0
    · exact .inl ⟨endless, by omega, by simp only [if_pos spent]⟩
    · exact .inr ⟨endless, by omega, by simp only [if_neg spent]⟩

end Call

/-- What each call keeps: the time that it has waited, and that which it is still going to wait. -/
structure Timed (clock : Nat) (call : Call) : Prop where
  started : call.startTime ≤ clock
  less : call.waitTime ≤ call.asked.waitTime
  atLeast : call.asked.waitTime * ticks + call.began ≤ call.waitTime * ticks + call.startTime
  sleeps : ∀ time, call.pc = .asleep (some time) → call.startTime + dword call.waitTime * ticks ≤ time
  timedOut : call.pc = .returned .timedOut → call.asked.waitTime < 4294967296 →
    call.began + call.asked.waitTime * ticks ≤ clock

theorem timed_turns {clock : Nat} {after : Call} (timed : Timed clock call) (turns : Turns clock call after) :
    Timed clock after := by
  obtain ⟨started, less, atLeast, sleeps, timedOut⟩ := timed
  cases turns with
  | enter here =>
    refine ⟨started, less, atLeast, fun time same => ?_, nofun⟩
    have same := Pc.asleep.inj same
    unfold deadline at same
    split at same
    · cases same
    · cases same
      exact Nat.add_le_add_right started _
  | take here message => cases message <;> exact ⟨started, less, atLeast, nofun, nofun⟩
  | nothingLeft here => exact ⟨started, less, atLeast, nofun, nofun⟩
  | left here => exact ⟨started, less, atLeast, nofun, nofun⟩
  | fail => exact ⟨started, less, atLeast, nofun, nofun⟩
  | expire here late =>
    refine ⟨started, less, atLeast, nofun, fun _ bounded => ?_⟩
    have slept := sleeps _ here
    simp only [dword, ticks] at *
    omega
  | reduce here =>
    obtain ⟨-, same⟩ | ⟨other, spent, same⟩ | ⟨other, left, same⟩ := call.reduce_cases clock <;> rw [same]
    · exact ⟨started, less, atLeast, nofun, nofun⟩
    · have passed := call.passed_le clock
      refine ⟨Nat.le_refl clock, ?_, ?_, nofun, fun _ _ => ?_⟩ <;> dsimp only [ticks] at * <;> omega
    · have passed := call.passed_le clock
      refine ⟨Nat.le_refl clock, ?_, ?_, nofun, nofun⟩ <;> dsimp only [ticks] at * <;> omega

theorem timed_passes {clock : Nat} (timed : Timed clock call) (count : Nat) : Timed (clock + count) (call.goesBy count) := by
  obtain ⟨started, less, atLeast, sleeps, timedOut⟩ := timed
  have later : call.startTime ≤ clock + count := Nat.le_add_right_of_le started
  have late (returned : call.pc = .returned .timedOut) (bounded : call.asked.waitTime < 4294967296) :
      call.began + call.asked.waitTime * ticks ≤ (clock + count : Nat) := by
    have before := timedOut returned bounded
    omega
  unfold Call.goesBy
  split <;> exact ⟨later, less, atLeast, sleeps, late⟩

theorem timed_begins (clock : Nat) (asked : Asked) : Timed clock (.start asked clock) :=
  ⟨Nat.le_refl clock, Int.le_refl _, Int.le_refl _, nofun, nofun⟩

/-- How long a call with a time that lies ahead is going to sleep. -/
structure Bounded (clock : Nat) (call : Call) : Prop where
  left : (∀ result, call.pc ≠ .returned result) → 0 ≤ call.waitTime
  less : call.waitTime ≤ call.asked.waitTime
  entering : call.pc = .enter → clock ≤ call.startTime + call.away
  /-- A message that has been taken may cost a millisecond, as far as the time is not counted. -/
  counted : call.waitTime * ticks + call.startTime + (if call.pc = .query ∨ call.pc = .clock then ticks else 0 : Nat) ≤
    call.began + (call.asked.waitTime + call.messages) * ticks
  sleeps : ∀ stop, call.pc = .asleep stop →
    ∃ time : Nat, stop = some time ∧ time ≤ call.began + (call.asked.waitTime + call.messages) * ticks + call.away

theorem bounded_turns {clock : Nat} {after : Call} (timed : Timed clock call) (short : call.asked.waitTime < infinite)
    (bounded : Bounded clock call) (turns : Turns clock call after) : Bounded clock after := by
  obtain ⟨left, less, entering, counted, sleeps⟩ := bounded
  cases turns with
  | enter here =>
    -- the call goes to sleep up to the end of what is left of its time
    have soon := entering here
    have ahead := left (by rw [here]; exact nofun)
    rw [here] at counted
    refine ⟨fun _ => ahead, less, nofun, counted, fun stop same => ?_⟩
    have same := Pc.asleep.inj same
    have whole : dword call.waitTime = call.waitTime := by
      unfold dword infinite at *
      omega
    have finite : dword call.waitTime ≠ infinite := by omega
    rw [deadline, if_neg finite] at same
    subst same
    refine ⟨_, rfl, ?_⟩
    simp only [ticks, reduceCtorEq, or_self, if_false] at *
    omega
  | take here message =>
    have ahead := left (by rw [here]; exact nofun)
    rw [here] at counted
    cases message <;>
    · refine ⟨fun _ => ahead, less, nofun, ?_, nofun⟩
      simp only [Call.take, ticks, reduceCtorEq, or_self, or_true, true_or, if_false, if_true] at *
      omega
  | nothingLeft here =>
    refine ⟨fun ends => absurd rfl (ends _), less, nofun, ?_, nofun⟩
    simp only [ticks, reduceCtorEq, or_self, if_false] at *
    omega
  | left here =>
    have ahead := left (by rw [here]; exact nofun)
    rw [here] at counted
    refine ⟨fun _ => ahead, less, nofun, ?_, nofun⟩
    simpa using counted
  | fail =>
    refine ⟨fun ends => absurd rfl (ends _), less, nofun, ?_, nofun⟩
    simp only [ticks, reduceCtorEq, or_self, if_false] at *
    omega
  | expire here late =>
    refine ⟨fun ends => absurd rfl (ends _), less, nofun, ?_, nofun⟩
    simp only [ticks, reduceCtorEq, or_self, if_false] at *
    omega
  | reduce here =>
    have ahead := left (by rw [here]; exact nofun)
    have passed := call.lt_passed clock
    have started := timed.started
    rw [here, if_pos (.inr rfl)] at counted
    obtain ⟨endless, -⟩ | ⟨-, spent, same⟩ | ⟨-, more, same⟩ := call.reduce_cases clock
    · omega
    · rw [same]
      refine ⟨fun ends => absurd rfl (ends _), by dsimp only; omega, nofun, ?_, nofun⟩
      simp only [ticks, reduceCtorEq, or_self, if_false] at *
      omega
    · rw [same]
      refine ⟨fun _ => by dsimp only; omega, by dsimp only; omega, fun _ => Nat.le_add_right _ _, ?_, nofun⟩
      simp only [ticks, reduceCtorEq, or_self, if_false] at *
      omega

theorem bounded_passes {clock : Nat} (bounded : Bounded clock call) (count : Nat) :
    Bounded (clock + count) (call.goesBy count) := by
  obtain ⟨left, less, entering, counted, sleeps⟩ := bounded
  unfold Call.goesBy
  split
  · rename_i here
    exact ⟨left, less, fun enters => (nomatch here.symm.trans enters), counted, sleeps⟩
  · rename_i awake
    refine ⟨left, less, fun enters => ?_, counted, fun stop asleep => absurd asleep (awake stop)⟩
    have soon := entering enters
    dsimp only
    omega

/-- A call with a time that is over. -/
structure Overdue (clock : Nat) (call : Call) : Prop where
  same : (∀ result, call.pc ≠ .returned result) → call.waitTime = call.asked.waitTime
  entering : call.pc = .enter → call.asked.waitTime ≠ -1 → call.messages = 0 ∧ clock = call.began + call.away
  sleeps : ∀ stop, call.pc = .asleep stop →
    (call.asked.waitTime = -1 → stop = none) ∧ ∀ time, stop = some time → call.messages = 0 ∧ call.began + call.away ≤ time

theorem overdue_turns {clock : Nat} {after : Call} (past : call.asked.waitTime < 0) (overdue : Overdue clock call)
    (turns : Turns clock call after) : Overdue clock after := by
  obtain ⟨same, entering, sleeps⟩ := overdue
  cases turns with
  | enter here =>
    have still := same (by rw [here]; exact nofun)
    refine ⟨fun _ => still, nofun, fun stop asleep => ?_⟩
    have asleep := Pc.asleep.inj asleep
    rw [deadline, still] at asleep
    subst asleep
    refine ⟨fun last => ?_, fun time finite => ?_⟩
    · rw [last]
      exact if_pos (by decide)
    · have other : call.asked.waitTime ≠ -1 := by
        rintro last
        rw [last, if_pos (by decide)] at finite
        cases finite
      obtain ⟨untouched, now⟩ := entering here other
      split at finite
      · cases finite
      · cases finite
        exact ⟨untouched, now ▸ Nat.le_add_right _ _⟩
  | take here message =>
    have still := same (by rw [here]; exact nofun)
    cases message <;> exact ⟨fun _ => still, nofun, nofun⟩
  | nothingLeft here => exact ⟨fun ends => absurd rfl (ends _), nofun, nofun⟩
  | left here =>
    have still := same (by rw [here]; exact nofun)
    exact ⟨fun _ => still, nofun, nofun⟩
  | fail => exact ⟨fun ends => absurd rfl (ends _), nofun, nofun⟩
  | expire here late => exact ⟨fun ends => absurd rfl (ends _), nofun, nofun⟩
  | reduce here =>
    have still := same (by rw [here]; exact nofun)
    obtain ⟨endless, same⟩ | ⟨-, -, same⟩ | ⟨-, more, -⟩ := call.reduce_cases clock
    · rw [same]
      exact ⟨fun _ => still, fun _ other => absurd (still.symm.trans endless) other, nofun⟩
    · rw [same]
      exact ⟨fun ends => absurd rfl (ends _), nofun, nofun⟩
    · omega

theorem overdue_passes {clock : Nat} (overdue : Overdue clock call) (count : Nat) :
    Overdue (clock + count) (call.goesBy count) := by
  obtain ⟨same, entering, sleeps⟩ := overdue
  unfold Call.goesBy
  split
  · rename_i here
    exact ⟨same, fun enters => (nomatch here.symm.trans enters), sleeps⟩
  · rename_i awake
    refine ⟨same, fun enters other => ?_, fun stop asleep => absurd asleep (awake stop)⟩
    obtain ⟨untouched, now⟩ := entering enters other
    refine ⟨untouched, ?_⟩
    dsimp only
    omega

theorem turns_asked {clock : Nat} {after : Call} (turns : Turns clock call after) : after.asked = call.asked := by
  cases turns with
  | take here message => cases message <;> rfl
  | reduce here => obtain ⟨-, same⟩ | ⟨-, -, same⟩ | ⟨-, -, same⟩ := call.reduce_cases clock <;> rw [same]
  | _ => rfl

theorem goesBy_asked (call : Call) (count : Nat) : (call.goesBy count).asked = call.asked := by
  unfold Call.goesBy
  split <;> rfl

variable {world final : World} {events : List Event}

theorem timed_of_run (idle : ∀ name, world.calls name = none) (reached : run step world events = some final)
    (entry : final.calls name = some call) : Timed final.clock call :=
  call_of_run timed_begins (fun _ _ _ => timed_turns) (fun _ _ count timed => timed_passes timed count) idle reached entry

theorem bounded_of_run (idle : ∀ name, world.calls name = none) (reached : run step world events = some final)
    (entry : final.calls name = some call) (ahead : 0 ≤ call.asked.waitTime)
    (short : call.asked.waitTime < infinite) : Bounded final.clock call := by
  let Both (clock : Nat) (call : Call) : Prop :=
    Timed clock call ∧ (0 ≤ call.asked.waitTime → call.asked.waitTime < infinite → Bounded clock call)
  have all : Both final.clock call := by
    apply call_of_run _ _ _ idle reached entry
    · intro clock asked
      exact ⟨timed_begins clock asked,
        fun ahead _ => ⟨fun _ => ahead, Int.le_refl _, fun _ => Nat.le_refl _, by simp [Call.start, Int.add_comm], nofun⟩⟩
    · rintro clock call after ⟨timed, bounded⟩ turns
      refine ⟨timed_turns timed turns, ?_⟩
      rw [turns_asked turns]
      exact fun ahead short => bounded_turns timed short (bounded ahead short) turns
    · rintro clock call count ⟨timed, bounded⟩
      refine ⟨timed_passes timed count, ?_⟩
      rw [goesBy_asked]
      exact fun ahead short => bounded_passes (bounded ahead short) count
  exact all.2 ahead short

theorem overdue_of_run (idle : ∀ name, world.calls name = none) (reached : run step world events = some final)
    (entry : final.calls name = some call) (past : call.asked.waitTime < 0) : Overdue final.clock call := by
  let Past (clock : Nat) (call : Call) : Prop := call.asked.waitTime < 0 → Overdue clock call
  have all : Past final.clock call := by
    apply call_of_run _ _ _ idle reached entry
    · intro clock asked _
      exact ⟨fun _ => rfl, fun _ _ => ⟨rfl, rfl⟩, nofun⟩
    · intro clock call after overdue turns past
      rw [turns_asked turns] at past
      exact overdue_turns past (overdue past) turns
    · intro clock call count overdue past
      rw [goesBy_asked] at past
      exact overdue_passes (overdue past) count
  exact all past

/-- What a call that was asked for this comes to in some run. -/
def Comes (world : World) (name : Nat) (duration : Int) (final : World) (call : Call) : Prop :=
  ∃ events, run step world events = some final ∧ final.calls name = some call ∧ call.asked = .timed duration

theorem tdiv_ticks_le {duration : Int} (ahead : 0 ≤ duration) : duration.tdiv ticks * ticks ≤ duration := by
  have rest := Int.tmod_nonneg (ticks : Int) ahead
  have whole := Int.tdiv_mul_add_tmod duration ticks
  omega

theorem lt_tdiv_ticks (duration : Int) : duration < duration.tdiv ticks * ticks + ticks := by
  have rest := Int.tmod_lt_of_pos duration (show (0 : Int) < ticks by decide)
  have whole := Int.tdiv_mul_add_tmod duration ticks
  omega

theorem le_tdiv_ticks {duration : Int} (whole : duration ≤ 0 ∨ (ticks : Int) ∣ duration) :
    duration ≤ duration.tdiv ticks * ticks := by
  obtain past | whole := whole
  · have rest := Int.tmod_nonneg (ticks : Int) (show 0 ≤ -duration by omega)
    have whole := Int.tdiv_mul_add_tmod duration ticks
    rw [Int.neg_tmod] at rest
    omega
  · exact Int.le_of_eq (Int.tdiv_mul_cancel whole).symm

theorem tdiv_ticks_nonneg_iff (duration : Int) : 0 ≤ duration.tdiv ticks ↔ -ticks < duration := by
  have least := Int.lt_tmod_of_pos duration (show (0 : Int) < ticks by decide)
  have whole := Int.tdiv_mul_add_tmod duration ticks
  constructor
  · intro ahead
    have some : 0 ≤ duration.tdiv ticks * ticks := Int.mul_nonneg ahead (by decide)
    omega
  · intro soon
    by_contra past
    have negative : duration ≤ 0 := by
      by_contra ahead
      exact past (Int.tdiv_nonneg (by omega) (by decide))
    have cut := le_tdiv_ticks (.inl negative)
    simp only [ticks] at *
    omega

/-- The run of a call that is told, when the whole milliseconds are over, that all of the time is. -/
theorem comes_early (idle : ∀ name, world.calls name = none) (name : Nat) {duration : Int} (ahead : 0 < duration)
    (short : duration.tdiv ticks < infinite) (part : ¬ (ticks : Int) ∣ duration) :
    ∃ final call, Comes world name duration final call ∧ call.pc = .returned .timedOut ∧
      final.clock < call.began + duration := by
  let count := (duration.tdiv ticks).toNat * ticks
  let call : Call := .start (.timed duration) world.clock
  let slept : Call := { call with pc := .asleep (some (world.clock + count)) }
  let woken : World := { world with clock := world.clock + count, calls := fun other =>
    (((world.set name call).set name slept).calls other).map (·.goesBy count) }
  let told : Call := { slept with pc := .returned .timedOut }
  have whole : 0 ≤ duration.tdiv ticks := Int.tdiv_nonneg (Int.le_of_lt ahead) (by decide)
  -- fewer milliseconds than INFINITE fit into a DWORD
  have same : dword (duration.tdiv ticks) = (duration.tdiv ticks).toNat := by
    unfold dword infinite at *
    omega
  have stop : deadline world.clock (duration.tdiv ticks) = some (world.clock + count) := by
    rw [deadline, same, if_neg (by omega)]
  have begins : step world (.begin name (.timed duration)) = some (world.set name call) := by
    rw [step, idle]
  have sleeps : step (world.set name call) (.advance name) = some ((world.set name call).set name slept) := by
    rw [step, set_self]
    exact congrArg (fun stop => some ((world.set name call).set name { call with pc := .asleep stop })) stop
  have passes : step ((world.set name call).set name slept) (.pass count) = some woken := rfl
  have there : woken.calls name = some slept := congrArg (·.map (·.goesBy count)) (set_self (world.set name call) name slept)
  have ends : step woken (.expire name) = some (woken.set name told) := by
    rw [step, there]
    exact if_pos (Nat.le_refl _)
  have reached : run step world [.begin name (.timed duration), .advance name, .pass count, .expire name] =
      some (woken.set name told) :=
    run_cons.mpr ⟨_, begins, run_cons.mpr ⟨_, sleeps, run_cons.mpr ⟨_, passes, run_cons.mpr ⟨_, ends, rfl⟩⟩⟩⟩
  refine ⟨_, told, ⟨_, reached, set_self .., rfl⟩, rfl, ?_⟩
  -- the milliseconds that are counted are less than what was asked for
  have cut := tdiv_ticks_le (Int.le_of_lt ahead)
  have other : duration.tdiv ticks * ticks ≠ duration := fun all => part ⟨_, (Int.mul_comm .. ▸ all).symm⟩
  have counted : (count : Int) = duration.tdiv ticks * ticks := by
    rw [Int.natCast_mul, Int.toNat_of_nonneg whole]
  show ((world.clock + count : Nat) : Int) < (world.clock : Nat) + duration
  omega

/-- If fewer than INFINITE milliseconds are asked for, a call can be told that its time is over before it is exactly if the
time is not a whole number of milliseconds, and then less than one too early. It sleeps no longer than the whole
milliseconds, but for one for each message, exactly if they lie ahead. -/
theorem asleep_iff_ahead (world : World) (idle : ∀ name, world.calls name = none) (name : Nat) (duration : Int)
    (short : duration < infinite * ticks) :
    ((∀ final call, Comes world name duration final call → call.pc = .returned .timedOut →
        call.began + duration ≤ final.clock) ↔ duration ≤ 0 ∨ (ticks : Int) ∣ duration) ∧
      ∀ final call, Comes world name duration final call →
        (call.pc = .returned .timedOut → call.began + duration < final.clock + ticks) ∧
        ∀ stop, call.pc = .asleep stop →
          ((∃ time : Nat, stop = some time ∧
            time ≤ call.began + (duration.tdiv ticks + call.messages) * ticks + call.away) ↔ -ticks < duration) := by
  have fits : duration.tdiv ticks < infinite := by
    obtain ahead | past := Int.le_total 0 duration
    · have cut := tdiv_ticks_le ahead
      simp only [ticks, infinite] at *
      omega
    · have least := Int.lt_tmod_of_pos duration (show (0 : Int) < ticks by decide)
      have whole := Int.tdiv_mul_add_tmod duration ticks
      simp only [ticks, infinite] at *
      omega
  -- a call that gives up has let its whole milliseconds go by
  have inTime (final : World) (call : Call) (comes : Comes world name duration final call)
      (told : call.pc = .returned .timedOut) :
      call.began + duration.tdiv ticks * ticks ≤ final.clock := by
    obtain ⟨events, reached, entry, asked⟩ := comes
    have late := (timed_of_run idle reached entry).timedOut told
    rw [asked] at late
    exact late (Int.lt_trans fits (by decide))
  refine ⟨⟨fun never => ?_, fun whole final call comes told => ?_⟩, fun final call comes =>
    ⟨fun told => ?_, fun stop asleep => ?_⟩⟩
  · -- a part of a millisecond that is left over is not waited for
    by_contra part
    obtain ⟨ahead, part⟩ := not_or.mp part
    obtain ⟨final, call, comes, told, early⟩ := comes_early idle name (Int.not_le.mp ahead) fits part
    exact absurd (never final call comes told) (Int.not_le.mpr early)
  · have late := inTime final call comes told
    have cut := le_tdiv_ticks whole
    omega
  · have late := inTime final call comes told
    have cut := lt_tdiv_ticks duration
    omega
  · obtain ⟨events, reached, entry, asked⟩ := comes
    have time : call.asked.waitTime = duration.tdiv ticks := by rw [asked]; rfl
    rw [← tdiv_ticks_nonneg_iff, ← time]
    refine ⟨fun bounded => ?_, fun ahead => ?_⟩
    · -- negative milliseconds are a DWORD that is far away
      by_contra past
      obtain ⟨time, rfl, soon⟩ := bounded
      obtain ⟨untouched, late⟩ := ((overdue_of_run idle reached entry (Int.not_le.mp past)).sleeps _ asleep).2 time rfl
      rw [untouched] at soon
      simp only [ticks] at soon
      omega
    · exact (bounded_of_run idle reached entry ahead (time ▸ fits)).sleeps stop asleep

/-- A call that is told to wait until two milliseconds ago. -/
def past : List Event := [.begin 0 (.timed (-2000000)), .advance 0]

theorem asleep_iff_ahead_past : ∃ final call, run step { active := 1 } past = some final ∧ final.calls 0 = some call ∧
    call.pc = .asleep (some 4294967294000000) ∧
    ¬ ∃ time : Nat, some 4294967294000000 = some time ∧ (time : Int) ≤ call.began + (-2 + call.messages) * ticks + call.away := by
  have ahead := ((asleep_iff_ahead { active := 1 } (fun _ => rfl) 0 (-2000000) (by decide)).2 _ _ ⟨past, rfl, rfl, rfl⟩).2 _ rfl
  exact ⟨_, _, rfl, rfl, rfl, fun soon => absurd (ahead.mp soon) (by decide)⟩

/-- `wait` is over without an error when the time from the first message on is. -/
example : (run step { active := 1 } [.begin 0 .ever, .advance 0, .pass 1000000, .notify, .advance 0, .advance 0, .advance 0,
    .pass 4294967294000000, .expire 0]).map (fun world => (world.active, (world.calls 0).map (·.pc))) =
    some (1, some (.returned .timedOut)) := by rfl

/-! ## Nothing left -/

/-- A step with which a call has returned false without an error: it has found the job empty. -/
theorem found_of_step {event : Event} {after : Call} (taken : step world event = some final)
    (entry : final.calls name = some after) (returned : after.pc = .returned .nothingLeft)
    (before : ∀ call, world.calls name = some call → call.pc ≠ .returned .nothingLeft) :
    event = .advance name ∧ world.active = 0 ∧ final.active = 0 := by
  have moved {other : World} {subject : Nat} {next : Call} (calls : other.calls = world.calls)
    (same : final = other.set subject next) :
      name = subject ∧ after = next := by
    subst same
    by_cases here : name = subject
    · subst here
      exact ⟨rfl, Option.some.inj (entry.symm.trans (set_self other name next))⟩
    · rw [set_of_ne _ _ here, calls] at entry
      exact absurd returned (before after entry)
  have kept (same : final.calls = world.calls) : False := before after (same ▸ entry) returned
  cases step_moves taken with
  | join => exact (kept rfl).elim
  | exit left => exact (kept rfl).elim
  | notify => exact (kept rfl).elim
  | pass =>
    -- a call keeps its program counter while time goes by
    obtain ⟨call, former, rfl⟩ := Option.map_eq_some_iff.mp entry
    refine absurd ?_ (before call former)
    unfold Call.goesBy at returned
    split at returned <;> exact returned
  | begin fresh =>
    obtain ⟨rfl, rfl⟩ := moved rfl rfl
    cases returned
  | enter former here =>
    obtain ⟨rfl, rfl⟩ := moved rfl rfl
    cases returned
  | @take _ _ _ message rest former here queued =>
    obtain ⟨rfl, rfl⟩ := @moved { world with queue := rest } _ _ rfl rfl
    cases message <;> cases returned
  | nothingLeft former here gone =>
    obtain ⟨rfl, rfl⟩ := moved rfl rfl
    exact ⟨rfl, gone, gone⟩
  | left former here left =>
    obtain ⟨rfl, rfl⟩ := moved rfl rfl
    cases returned
  | @reduce _ call former here =>
    obtain ⟨rfl, rfl⟩ := moved rfl rfl
    obtain ⟨-, same⟩ | ⟨-, -, same⟩ | ⟨-, -, same⟩ := call.reduce_cases world.clock <;> rw [same] at returned <;> cases returned
  | expire former here late =>
    obtain ⟨rfl, rfl⟩ := moved rfl rfl
    cases returned
  | fail former here =>
    obtain ⟨rfl, rfl⟩ := moved rfl rfl
    cases returned

/-- No more members than have joined. -/
theorem active_le (events : List Event) (reached : run step world events = some final) :
    final.active ≤ world.active + events.count .join := by
  induction events generalizing world with
  | nil =>
    cases reached
    exact Nat.le_refl _
  | cons event rest ih =>
    obtain ⟨next, taken, later⟩ := run_cons.mp reached
    refine Nat.le_trans (ih later) ?_
    have counted : rest.count .join ≤ (event :: rest).count .join := List.count_le_count_cons
    cases step_moves taken with
    | join =>
      rw [List.count_cons_self]
      dsimp only
      omega
    | exit left => exact Nat.add_le_add (Nat.sub_le ..) counted
    | _ => exact Nat.add_le_add_left counted _

/-- A call that returns false without an error has found the job empty, in a step of its own; what is left in it behind the
call has joined later. -/
theorem nothingLeft_of_run (world final : World) (events : List Event) (idle : ∀ name, world.calls name = none)
    (reached : run step world events = some final) (name : Nat) (call : Call) (entry : final.calls name = some call)
    (returned : call.pc = .returned .nothingLeft) :
    ∃ front rest middle, events = front ++ .advance name :: rest ∧ run step world front = some middle ∧ middle.active = 0 ∧
      final.active ≤ rest.count .join := by
  have before (call : Call) (entry : world.calls name = some call) : call.pc ≠ .returned .nothingLeft := by
    rw [idle] at entry
    cases entry
  clear idle
  induction events generalizing world with
  | nil =>
    cases reached
    exact absurd returned (before call entry)
  | cons event rest ih =>
    obtain ⟨next, taken, later⟩ := run_cons.mp reached
    by_cases unfinished : ∀ call, next.calls name = some call → call.pc ≠ .returned .nothingLeft
    · obtain ⟨front, more, middle, rfl, reached, gone, fewer⟩ := ih next later unfinished
      exact ⟨event :: front, more, middle, rfl, run_cons.mpr ⟨next, taken, reached⟩, gone, fewer⟩
    · simp only [not_forall, not_not] at unfinished
      obtain ⟨after, entry, returned⟩ := unfinished
      obtain ⟨rfl, gone, still⟩ := found_of_step taken entry returned before
      refine ⟨[], rest, world, rfl, rfl, gone, ?_⟩
      have fewer := active_le rest later
      rwa [still, Nat.zero_add] at fewer

/-- The last member exits while a call waits. -/
def lastExit : List Event :=
  [.begin 0 .ever, .advance 0, .notify, .advance 0, .advance 0, .advance 0, .exit true, .advance 0, .advance 0]

theorem nothingLeft_of_run_lastExit : ∃ final, run step { active := 1 } lastExit = some final ∧
    ∃ front rest middle, lastExit = front ++ .advance 0 :: rest ∧ run step { active := 1 } front = some middle ∧
      middle.active = 0 ∧
      final.active ≤ rest.count .join :=
  ⟨_, rfl, nothingLeft_of_run { active := 1 } _ lastExit (fun _ => rfl) rfl 0 _ rfl rfl⟩

/-! ## The last message -/

/-- The call takes another message, or asks once more. -/
def Pc.waits : Pc → Bool
  | .enter | .asleep _ | .clock => true
  | .query | .returned _ => false

namespace World

def Waits (world : World) (name : Nat) : Prop := ∃ call, world.calls name = some call ∧ call.pc.waits = true

/-- Once nothing is left, a message says so to those that wait. -/
def Wakes (world : World) : Prop :=
  world.active = 0 → .activeProcessZero ∈ world.queue ∨ ∀ name, ¬ world.Waits name

end World

/-- A call that begins on an empty job finds the message still there, the last exit is told to those that wait, and while
nothing is left no call takes the message away from another one. -/
def Served (world : World) : Event → Prop
  | .begin _ _ => world.active = 0 → .activeProcessZero ∈ world.queue
  | .exit told => world.active = 1 → told = true ∨ .activeProcessZero ∈ world.queue ∨ ∀ name, ¬ world.Waits name
  | .advance name => ∀ call stop, world.calls name = some call → call.pc = .asleep stop → world.active = 0 →
      .activeProcessZero ∈ world.queue.tail ∨ world.queue.head? = some .activeProcessZero ∧ ∀ other ≠ name, ¬ world.Waits other
  | _ => True

theorem waits_set {other : Nat} :
    (world.set name call).Waits other ↔ if other = name then call.pc.waits = true else world.Waits other := by
  unfold World.Waits
  split
  · rename_i here
    rw [here]
    simp
  · rename_i elsewhere
    rw [set_of_ne _ _ elsewhere]

/-- Whether the change of one call keeps it: the others wait as before. -/
theorem wakes_set_of_waits {before : Call} (wakes : world.Wakes) (entry : world.calls name = some before)
    (same : call.pc.waits = true → before.pc.waits = true) : (world.set name call).Wakes := by
  intro gone
  refine (wakes gone).imp_right fun quiet other waits => ?_
  rw [waits_set] at waits
  split at waits
  · exact quiet name ⟨before, entry, same waits⟩
  · exact quiet other waits

theorem wakes_step {event : Event} (wakes : world.Wakes) (taken : step world event = some next) :
    next.Wakes ↔ Served world event := by
  cases step_moves taken with
  | join => exact iff_of_true nofun trivial
  | notify =>
    refine iff_of_true (fun gone => ?_) trivial
    exact (wakes gone).imp_left fun queued => List.mem_append_left _ queued
  | @pass count =>
    refine iff_of_true (fun gone => (wakes gone).imp_right fun quiet name waits => ?_) trivial
    obtain ⟨after, entry, waits⟩ := waits
    obtain ⟨call, former, rfl⟩ := Option.map_eq_some_iff.mp entry
    refine quiet name ⟨call, former, ?_⟩
    unfold Call.goesBy at waits
    split at waits <;> exact waits
  | @exit told left =>
    unfold Served
    -- only the last exit empties the job, and its message is told or not
    by_cases last : world.active = 1
    · cases told with
      | true =>
        refine iff_of_true (fun _ => .inl ?_) fun _ => .inl rfl
        rw [World.exit, if_pos ⟨last, rfl⟩]
        exact List.mem_append_right _ List.mem_cons_self
      | false =>
        have gone : (world.exit false).active = 0 := by rw [World.exit, last]
        have queue : (world.exit false).queue = world.queue := if_neg (by simp)
        unfold World.Wakes
        rw [queue]
        exact ⟨fun wakes _ => .inr (wakes gone), fun served _ => (served last).resolve_left nofun⟩
    · refine iff_of_true (fun gone => ?_) fun here => absurd here last
      have gone : world.active - 1 = 0 := gone
      omega
  | @begin name waitTime fresh =>
    constructor
    · -- the new call waits, so the message has to be queued
      exact fun wakes gone => (wakes gone).resolve_right fun quiet => quiet name ⟨_, set_self .., rfl⟩
    · exact fun served gone => .inl (served gone)
  | enter entry here =>
    refine iff_of_true (wakes_set_of_waits wakes entry fun _ => by rw [here]; rfl) ?_
    intro call stop same asleep
    cases entry.symm.trans same
    exact nomatch here.symm.trans asleep
  | nothingLeft entry here gone =>
    refine iff_of_true (wakes_set_of_waits wakes entry nofun) ?_
    intro call stop same asleep
    cases entry.symm.trans same
    exact nomatch here.symm.trans asleep
  | left entry here left =>
    refine iff_of_true (fun gone => absurd gone left) ?_
    exact fun _ _ _ _ gone => absurd gone left
  | reduce entry here =>
    refine iff_of_true (wakes_set_of_waits wakes entry fun _ => by rw [here]; rfl) ?_
    intro call stop same asleep
    cases entry.symm.trans same
    exact nomatch here.symm.trans asleep
  | expire entry here late => exact iff_of_true (wakes_set_of_waits wakes entry nofun) trivial
  | fail entry here => exact iff_of_true (wakes_set_of_waits wakes entry nofun) trivial
  | @take name call stop message rest entry here queued =>
    have waiting : world.Waits name := ⟨call, entry, by rw [here]; rfl⟩
    have others : (∀ other, ¬ (({ world with queue := rest }).set name (call.take .activeProcessZero)).Waits other) ↔
        ∀ other ≠ name, ¬ world.Waits other := by
      refine forall_congr' fun other => ?_
      rw [waits_set]
      by_cases here : other = name <;> simp [here, Call.take, Pc.waits, World.Waits]
    unfold Served
    rw [queued]
    cases message with
    | activeProcessZero =>
      -- the message is gone for all others, so nobody else may wait
      refine ⟨fun wakes _ _ _ _ gone => ?_, fun served gone => ?_⟩
      · exact (wakes gone).imp_right fun quiet => ⟨rfl, others.mp quiet⟩
      · exact (served call stop entry here gone).imp_right fun alone => others.mpr alone.2
    | other =>
      -- another message was in front of that of the last exit
      have stays (gone : world.active = 0) : .activeProcessZero ∈ rest := by
        have told := (wakes gone).resolve_right fun quiet => quiet name waiting
        rw [queued] at told
        exact (List.mem_cons.mp told).resolve_left nofun
      exact iff_of_true (fun gone => .inl (stays gone)) fun _ _ _ _ gone => .inl (stays gone)

/-- Steps of its own bring the call to an end. -/
def Ends (world : World) (name : Nat) : Prop :=
  ∃ count final call result, run step world (List.replicate count (.advance name)) = some final ∧
    final.calls name = some call ∧ call.pc = .returned result ∧ result ≠ .failed

theorem ends_of_step {after : Call} (entry : world.calls name = some call)
    (taken : world.advance name call = some (next.set name after))
    (ends : (∃ result, after.pc = .returned result ∧ result ≠ .failed) ∨ Ends (next.set name after) name) : Ends world name := by
  have first : step world (.advance name) = some (next.set name after) := by
    rw [step, entry]
    exact taken
  obtain ⟨result, returned, told⟩ | ⟨count, final, last, result, reached, same, returned, told⟩ := ends
  · exact ⟨1, next.set name after, after, result, run_cons.mpr ⟨_, first, rfl⟩, set_self .., returned, told⟩
  · refine ⟨count + 1, final, last, result, ?_, same, returned, told⟩
    rw [List.replicate_succ]
    exact run_cons.mpr ⟨_, first, reached⟩

def Pc.rank : Pc → Nat
  | .clock => 3
  | .enter => 2
  | .asleep _ | .query => 1
  | .returned _ => 0

/-- The call takes message by message until it finds that of the end. -/
theorem ends_of_told (count : Nat) (measure : 4 * world.queue.length + call.pc.rank ≤ count) (gone : world.active = 0)
    (entry : world.calls name = some call) (told : call.pc.waits = true → .activeProcessZero ∈ world.queue)
    (running : ∀ result, call.pc ≠ .returned result) : Ends world name := by
  induction count generalizing world call with
  | zero =>
    cases here : call.pc with
    | returned result => exact absurd here (running result)
    | _ => rw [here] at measure; exact absurd measure (by simp [Pc.rank])
  | succ count ih =>
    -- a step that leaves less to do: the induction goes on from there
    have goesOn {next : World} {after : Call} (taken : world.advance name call = some (next.set name after))
        (less : 4 * next.queue.length + after.pc.rank < 4 * world.queue.length + call.pc.rank) (still : next.active = 0)
        (told : after.pc.waits = true → .activeProcessZero ∈ next.queue) (running : ∀ result, after.pc ≠ .returned result) :
        Ends world name := by
      have shorter : 4 * next.queue.length + after.pc.rank ≤ count := by omega
      exact ends_of_step entry taken (.inr (@ih after (next.set name after) shorter still (set_self ..) told running))
    cases here : call.pc with
    | returned result => exact absurd here (running result)
    | enter =>
      have taken :
          world.advance name call = some (world.set name { call with pc := .asleep (deadline world.clock call.waitTime) }) := by
        rw [World.advance, here]
      exact goesOn taken (by rw [here]; simp [Pc.rank]) gone (fun _ => told (by rw [here]; rfl)) nofun
    | query =>
      have taken : world.advance name call = some (world.set name { call with pc := .returned .nothingLeft }) := by
        rw [World.advance, here]
        simp only [if_pos gone]
      exact ends_of_step entry taken (.inl ⟨.nothingLeft, rfl, nofun⟩)
    | clock =>
      have taken : world.advance name call = some (world.set name (call.reduce world.clock)) := by
        rw [World.advance, here]
      have queued := told (by rw [here]; rfl)
      obtain ⟨-, same⟩ | ⟨-, -, same⟩ | ⟨-, -, same⟩ := call.reduce_cases world.clock <;> rw [same] at taken
      · exact goesOn taken (by rw [here]; simp [Pc.rank]) gone (fun _ => queued) nofun
      · exact ends_of_step entry taken (.inl ⟨.timedOut, rfl, nofun⟩)
      · exact goesOn taken (by rw [here]; simp [Pc.rank]) gone (fun _ => queued) nofun
    | asleep stop =>
      have member := told (by rw [here]; rfl)
      cases queued : world.queue with
      | nil =>
        rw [queued] at member
        cases member
      | cons message rest =>
        have taken : world.advance name call = some (({ world with queue := rest }).set name (call.take message)) := by
          rw [World.advance, here, queued]
        rw [queued] at member
        -- one message less outweighs any place that the call goes to
        have less (pc : Pc) : 4 * rest.length + pc.rank < 4 * world.queue.length + call.pc.rank := by
          have small : pc.rank ≤ 3 := by cases pc <;> simp [Pc.rank]
          rw [queued, List.length_cons, here]
          omega
        cases message with
        | activeProcessZero => exact goesOn taken (less _) gone nofun nofun
        | other =>
          have later := (List.mem_cons.mp member).resolve_left nofun
          exact goesOn taken (less _) gone (fun _ => later) nofun

/-- Calls that wait are told that nothing is left, exactly if one that begins on an empty job finds the message still there,
none takes it away from another one, and the message comes. Then each call that has not returned can be brought to an end by
steps of its own as soon as nothing is left. -/
theorem wakes_iff_served (world final : World) (events : List Event) (idle : ∀ name, world.calls name = none)
    (reached : run step world events = some final) :
    (Always step World.Wakes world events ↔ Admits step Served world events) ∧
      (Admits step Served world events → final.active = 0 → ∀ name call, final.calls name = some call →
        (∀ result, call.pc ≠ .returned result) → Ends final name) := by
  have initial : world.Wakes := by
    refine fun _ => .inr fun name waits => ?_
    obtain ⟨call, entry, -⟩ := waits
    rw [idle] at entry
    cases entry
  refine ⟨?_, fun served gone name call entry running => ?_⟩
  · exact always_iff_admits (fun _ _ _ _ _ _ => trivial) (fun _ _ _ _ wakes taken => wakes_step wakes taken)
      trivial initial reached
  · have wakes : final.Wakes :=
      run_invariant (fun _ _ _ wakes served taken => (wakes_step wakes taken).mpr served) initial served reached
    refine ends_of_told _ (Nat.le_refl _) gone entry (fun waits => ?_) running
    exact (wakes gone).resolve_right fun quiet => quiet name ⟨call, entry, waits⟩

def told : List Event := [.begin 0 .ever, .advance 0, .notify, .exit true]

theorem wakes_iff_served_told : ∃ final, run step { active := 1 } told = some final ∧ Ends final 0 := by
  have served : Admits step Served { active := 1 } told := by
    refine ⟨nofun, ?_⟩
    rintro _ ⟨⟩
    refine ⟨fun call stop entry asleep => ?_, ?_⟩
    · cases entry
      cases asleep
    · rintro _ ⟨⟩
      exact ⟨trivial, fun _ _ => ⟨fun _ => .inl rfl, fun _ _ => trivial⟩⟩
  exact ⟨_, rfl, (wakes_iff_served { active := 1 } _ told (fun _ => rfl) rfl).2 served rfl 0 _ rfl nofun⟩

/-- A second call waits although nothing is left, since the first one has taken the message. -/
example : (run step { active := 1 } (lastExit ++ [.begin 1 .ever, .advance 1])).map
    (fun world => (world.active, world.queue, (world.calls 1).map (·.pc))) = some (0, [], some (.asleep none)) := by rfl

end BoostProcess.V1.Windows.WaitGroup
