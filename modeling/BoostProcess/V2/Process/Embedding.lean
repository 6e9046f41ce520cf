import BoostProcess.V2.Process.Completion
import BoostProcess.V2.Process.StalePid

/-! The operations of async_wait as parts of programs: a handler that runs is at most a poll
and the end of an operation, performed on the object whose status it refers to.

So the runs of async_wait on one live object are careful runs of a program with that object.
-/

set_option autoImplicit false

namespace BoostProcess.V2.Process.AsyncWait

open Transition

/-- The wait on the handle has not completed. -/
def Phase.pending : Phase → Bool
  | .waiting _ | .woken _ | .finishing _ => true
  | .completer _ | .done => false

def Operation.waiter (op : Operation) : Option Waiter :=
  if op.phase.pending then some ⟨0, op.handle⟩ else none

namespace State

/-- The program that the object is part of: it has no other. -/
def world (state : State) : World where
  sys := state.sys
  objects := Function.update (fun _ => none) 0 (some state.process)
  waiters name := (state.ops name).bind Operation.waiter

/-- An operation is registered with the number that its handle has. -/
def registered (state : State) (name : Nat) (op : Operation) : World :=
  { state.world with waiters := Function.update state.world.waiters name (some ⟨0, op.handle⟩) }

variable {state : State} {name : Nat} {op : Operation} {ec : ErrorCode} {source : Source} {signalled : Bool}

theorem setPhase_world (phase : Phase) :
    (state.setPhase name op phase).world =
      { state.world with waiters := Function.update state.world.waiters name (Operation.waiter { op with phase := phase }) } := by
  unfold world setPhase
  congr 1
  funext other
  by_cases same : other = name
  · subst same
    simp only [Function.update_self, Option.bind_some]
  · simp only [Function.update_of_ne same]

theorem setPhase_pending {phase : Phase} (pending : phase.pending = true) :
    (state.setPhase name op phase).world = state.registered name op := by
  rw [setPhase_world, Operation.waiter, if_pos pending]
  rfl

theorem setPhase_ended {phase : Phase} (ended : phase.pending = false) :
    (state.setPhase name op phase).world = { state.world with waiters := Function.update state.world.waiters name none } := by
  rw [setPhase_world, Operation.waiter, if_neg (by simp [ended])]

theorem waiters_of_pending (entry : state.ops name = some op) (pending : op.phase.pending = true) :
    state.world.waiters name = some ⟨0, op.handle⟩ := by
  simp [world, entry, Operation.waiter, pending]

theorem registered_self (listed : state.world.waiters name = some ⟨0, op.handle⟩) :
    state.registered name op = state.world := by
  unfold registered
  rw [← listed, Function.update_eq_self]

theorem wakeSignals_world : (state.wakeSignals ec).world = state.world := by
  unfold world wakeSignals
  congr 1
  funext name
  cases entry : state.ops name with
  | none => simp only [entry, Option.map_none]
  | some op =>
    simp only [entry, Option.map_some, Option.bind_some]
    split
    · rename_i waits
      simp [Operation.waiter, waits, Phase.pending]
    · rfl

theorem await_world : (state.await name op source signalled).world = state.registered name op := by
  unfold await
  split
  · exact setPhase_pending rfl
  · exact setPhase_pending rfl

@[simp] theorem exitStatus_registered :
    (state.registered name op).exitStatus 0 = state.process.exitStatus := by
  simp [registered, world, World.exitStatus]

/-- A call to waitpid has the same effect on the object. -/
theorem waited_registered (outcome : Sys × WaitResult) :
    (match outcome.2 with
      | .reaped status => ((state.registered name op).set 0 (((state.registered name op).objects 0).map fun process =>
          { process with exitStatus := status })).withSys outcome.1
      | _ => (state.registered name op).withSys outcome.1) = (state.waited outcome).registered name op := by
  unfold waited
  cases outcome.2 with
  | failed errno => rfl
  | running => rfl
  | reaped status => simp [registered, world, World.set, World.withSys]

/-- The poll of an operation is a poll by its waiter. -/
theorem poll_registered (ec : ErrorCode) (answer : Answer) :
    (state.registered name op).poll ⟨0, op.handle⟩ false answer =
      (state.poll op.handle ec true).1.registered name op := by
  unfold World.poll State.poll
  simp only [exitStatus_registered]
  by_cases invalid : op.handle.pid ≤ 0
  · simp [invalid]
  · by_cases stored : processIsRunning state.process.exitStatus = false
    · simp [invalid, stored]
    · rw [Bool.not_eq_false] at stored
      have same := @waited_registered state name op (state.sys.waitNoHang op.handle.pid op.handle.child)
      simp only [invalid, stored, Bool.true_eq_false, or_self, if_false, Bool.false_eq_true, and_self, if_true]
      refine Eq.trans same ?_
      cases (state.sys.waitNoHang op.handle.pid op.handle.child).2 with
      | failed errno => rfl
      | running => rfl
      | reaped status => rfl

theorem waitBlocking_registered (valid : 0 < op.handle.pid) (clear : ec.failed = false) (answer : Answer) :
    (state.registered name op).poll ⟨0, op.handle⟩ true answer =
      (state.waitBlocking op.handle ec answer).1.registered name op := by
  unfold World.poll State.waitBlocking
  simp only [exitStatus_registered]
  by_cases stored : processIsRunning state.process.exitStatus = false
  · simp [stored]
  · rw [Bool.not_eq_false] at stored
    have same := @waited_registered state name op
      (state.sys.waitFor op.handle.pid op.handle.child answer.status (0 < answer.interrupts))
    simp only [not_le.mpr valid, stored, Bool.true_eq_false, or_self, if_false, clear, and_self, if_true]
    refine Eq.trans same ?_
    cases (state.sys.waitFor op.handle.pid op.handle.child answer.status (0 < answer.interrupts)).2 with
    | failed errno => rfl
    | running => rfl
    | reaped status => rfl

end State

/-! ## Steps -/

section
variable {child name : Nat} {state next : State} {op : Operation} {ec : ErrorCode} {source : Source} {signalled : Bool}

/-- The object still has the number that an operation was registered with. -/
theorem poll_reaches (handle : op.handle = state.process.handle) (blocking : Bool) (answer : Answer) :
    Reaches Process.step Careful (state.registered name op)
      ((state.registered name op).poll ⟨0, op.handle⟩ blocking answer) := by
  have listed : (state.registered name op).waiters name = some ⟨0, op.handle⟩ := Function.update_self ..
  have owner : (state.registered name op).objects 0 = some state.process := by
    simp [State.registered, State.world]
  have careful : Careful (state.registered name op) (.poll name blocking answer) := by
    intro entry found
    rw [listed] at found
    cases found
    exact .inr (.inr ⟨state.process, owner, handle.symm⟩)
  apply Reaches.single (.poll name blocking answer) careful
  simp only [Process.step, listed, Option.map_some]

theorem enter_reaches (handle : op.handle = state.process.handle) (polls : Bool) :
    Reaches Process.step Careful (state.registered name op) (state.enter name op ec polls source signalled).world := by
  have polled : (state.enter name op ec polls source signalled).world =
      (state.poll op.handle ec polls).1.registered name op := by
    unfold State.enter
    dsimp only
    split
    · exact State.await_world
    · exact State.setPhase_pending rfl
  rw [polled]
  cases polls with
  | true =>
    have reached := @poll_reaches name state op handle false {}
    rw [State.poll_registered ec] at reached
    exact reached
  | false =>
    have silent : (state.poll op.handle ec false).1 = state := by
      unfold State.poll
      split
      · rfl
      · rfl
    rw [silent]
    exact .refl _

theorem handleWait_reaches (active : processIsRunning state.process.exitStatus = true) :
    Reaches Process.step Careful state.world (state.handleWait name op signalled).world := by
  -- the operation starts with the number that the handle has now
  have started : Reaches Process.step Careful state.world
      (state.registered name { op with handle := state.process.handle }) := by
    apply Reaches.single (.asyncWait 0 name) trivial
    simp [Process.step, State.world, State.registered, active]
  unfold State.handleWait
  dsimp only
  split
  · rw [State.wakeSignals_world, State.await_world]
    exact started
  · exact started.trans (enter_reaches rfl true)
  · exact started.trans (enter_reaches rfl true)

theorem completion_reaches (listed : state.world.waiters name = some ⟨0, op.handle⟩) :
    Reaches Process.step Careful state.world (state.completion name op ec signalled).world := by
  unfold State.completion
  split
  · rename_i again
    exact handleWait_reaches again.2
  · have ended : (state.complete name op ec state.process.exitStatus).world =
        { state.world with waiters := Function.update state.world.waiters name none } :=
      @State.setPhase_ended state name op .done rfl
    rw [ended]
    apply Reaches.single (.complete name) trivial
    simp only [Process.step, listed, Option.map_some]

theorem waitBlocking_ops (handle : Handle) (answer : Answer) :
    (state.waitBlocking handle ec answer).1.ops = state.ops := by
  unfold State.waitBlocking State.waited
  split
  · dsimp only
    cases (state.sys.waitFor handle.pid handle.child answer.status (0 < answer.interrupts)).2 with
    | failed errno => rfl
    | running => rfl
    | reaped status => rfl
  · rfl

theorem wake_reaches (sound : Sound child state) (entry : state.ops name = some op) (woken : op.phase = .woken ec)
    (answer : Answer) : Reaches Process.step Careful state.world (state.wake name op ec signalled answer).world := by
  obtain ⟨handle, -⟩ := sound.ops name op entry
  have pending : op.phase.pending = true := by rw [woken]; rfl
  have listed := State.waiters_of_pending entry pending
  have same := State.registered_self listed
  unfold State.wake
  split
  · rw [← same]
    exact enter_reaches handle _
  · have listed' : (state.waitBlocking op.handle ec answer).1.world.waiters name = some ⟨0, op.handle⟩ :=
      State.waiters_of_pending (by rw [waitBlocking_ops, entry]) pending
    have waited : Reaches Process.step Careful state.world (state.waitBlocking op.handle ec answer).1.world := by
      cases clear : ec.failed with
      | true =>
        have silent : (state.waitBlocking op.handle ec answer).1 = state := by
          simp [State.waitBlocking, clear]
        rw [silent]
        exact .refl _
      | false =>
        have valid : 0 < op.handle.pid := handle ▸ sound.core.valid
        rw [← same, ← State.registered_self listed', ← State.waitBlocking_registered valid clear]
        exact poll_reaches handle true answer
    exact waited.trans (completion_reaches listed')
  · rw [← same]
    exact enter_reaches handle true

theorem start_reaches (unused : state.ops name = none) :
    Reaches Process.step Careful state.world (state.start name signalled).world := by
  unfold State.start
  split
  · apply Reaches.of_eq
    have unlisted : state.world.waiters name = none := by simp [State.world, unused]
    rw [State.setPhase_ended rfl, ← unlisted, Function.update_eq_self]
  · rename_i active
    exact handleWait_reaches (Bool.not_eq_false _ ▸ active)

/-- Neither a wait that completes nor a cancellation does anything to the object. -/
theorem setPhase_reaches (entry : state.ops name = some op) {changed : Operation} {phase : Phase}
    (same : Operation.waiter { changed with phase := phase } = op.waiter) :
    Reaches Process.step Careful state.world (state.setPhase name changed phase).world := by
  have listed : state.world.waiters name = op.waiter := by simp [State.world, entry]
  apply Reaches.of_eq
  rw [State.setPhase_world, same, ← listed, Function.update_eq_self]

theorem cancel_reaches (entry : state.ops name = some op) :
    Reaches Process.step Careful state.world (state.cancel name op).world := by
  unfold State.cancel
  split
  · rename_i source waits
    exact setPhase_reaches entry (by simp [Operation.waiter, waits, Phase.pending])
  · exact setPhase_reaches entry rfl

/-- One step of the operations is some steps of the program. -/
theorem step_matched (state : State) (event : Event) (next : State) (sound : Sound child state)
    (taken : step state event = some next) : Reaches Process.step Careful state.world next.world := by
  cases step_cases taken with
  | start unused => exact start_reaches unused
  | @running ec =>
    apply Reaches.single (.running 0 ec) trivial
    simp [Process.step, World.use, State.world, World.set, World.withSys]
  | @wait ec answer =>
    apply Reaches.single (.wait 0 ec answer) trivial
    simp [Process.step, World.use, State.world, World.set, World.withSys]
  | cancel entry unfinished => exact cancel_reaches entry
  | deliver => exact .of_eq State.wakeSignals_world
  | ready entry waits ended =>
    exact setPhase_reaches entry (by simp [Operation.waiter, waits, Phase.pending])
  | wake entry woken => exact wake_reaches sound entry woken _
  | finish entry finishing =>
    exact completion_reaches (State.waiters_of_pending entry (by rw [finishing]; rfl))
  | @complete name _ op _ entry completer =>
    -- it was completed without a wait on the handle
    show Reaches Process.step Careful state.world (state.setPhase name op .done).world
    exact setPhase_reaches entry (by simp [Operation.waiter, completer, Phase.pending])
  | @exit pid status _ there =>
    apply Reaches.single (.exit pid status) trivial
    simp only [Process.step, State.world, there]
    rfl
  | @appear pid own free =>
    apply Reaches.single (.appear pid own) trivial
    exact if_pos free
  | @vanish pid _ exited there =>
    have here : state.world.sys.procs pid = some ⟨_, false, exited⟩ := there
    have foreign : Careful state.world (.vanish pid) := by
      intro proc entry
      rw [here] at entry
      cases entry
      rfl
    apply Reaches.single (.vanish pid) foreign
    simp only [Process.step, State.world, there]
    rfl

/-- Every run of the operations on a live object is a careful run of a program. -/
theorem run_embedded {final : State} {events : List Event} (initial : state.Initial child)
    (reached : run step state events = some final) :
    ∃ ops, Admits Process.step Careful state.world ops ∧ run Process.step state.world ops = some final.world := by
  have preserved : Preserves step (fun _ _ => True) (Sound child) :=
    fun _ _ _ sound _ taken => step_sound sound taken
  exact reaches_iff_run.mp (run_matched preserved step_matched initial.sound reached)

theorem State.Initial.tracking (initial : state.Initial child) : state.world.Tracking where
  noStale := initial.noStale
  consistent := initial.consistent
  exclusive first second held left right := by
    have only (holder : Nat) (holds : state.world.custody Handle.held holder = some held) : holder = 0 := by
      by_contra other
      simp [State.world, World.custody, Function.update_of_ne other] at holds
    rw [only first left, only second right]
  tracked name process entry valid := by
    by_cases own : name = 0
    · subst own
      simp only [State.world, Function.update_self] at entry
      cases entry
      obtain ⟨exited, there⟩ := initial.there
      exact .inl ⟨child, exited, initial.meant, there⟩
    · simp only [State.world, Function.update_of_ne own] at entry
      cases entry

/-- The object stays tracked, so the program may go on with it. -/
theorem run_tracking {final : State} {events : List Event} (initial : state.Initial child)
    (reached : run step state events = some final) : final.world.Tracking := by
  obtain ⟨ops, admitted, ran⟩ := run_embedded initial reached
  exact run_invariant step_tracking initial.tracking admitted ran

end
end BoostProcess.V2.Process.AsyncWait
