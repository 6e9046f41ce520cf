import BoostProcess.V2.Process.AsyncWait

/-! What the operations of async_wait complete with. The exit status is stored by whoever
polls first after the child ended; from then on nobody polls, and everybody who completes
reads it.
-/

set_option autoImplicit false

namespace BoostProcess.V2.Process.AsyncWait

namespace State

def Stored (state : State) : Prop := processIsRunning state.process.exitStatus = false

/-- The child is there while no status is stored. -/
structure Core (child : Nat) (state : State) : Prop where
  valid : 0 < state.process.handle.pid
  meant : state.process.handle.child = some child
  born : child < state.sys.births
  noStale : state.sys.NoStale
  consistent : state.sys.Consistent
  status : processIsRunning state.process.exitStatus = true ∧ Live state.sys state.process.handle ∨
    state.Stored ∧ state.sys.Reported child state.process.exitStatus

/-- What holds from one state to every later one. -/
structure Later (before after : State) : Prop where
  flavour : after.flavour = before.flavour
  handle : after.process.handle = before.process.handle
  stored : before.Stored → after.process.exitStatus = before.process.exitStatus
  ended : before.sys.runs before.process.handle = false → after.sys.runs before.process.handle = false
  reported : ∀ child status, before.sys.Reported child status → after.sys.Reported child status

/-- A change that leaves the operations alone. -/
structure Advance (child : Nat) (before after : State) : Prop where
  core : Core child after
  later : Later before after
  ops : after.ops = before.ops
  completed : after.completed = before.completed

variable {child : Nat} {state after : State} {final : Sys}

theorem Later.refl : Later state state := ⟨rfl, rfl, fun _ => rfl, id, fun _ _ => id⟩

theorem Core.refl (core : Core child state) : Advance child state state := ⟨core, .refl, rfl, rfl⟩

theorem Core.live (core : Core child state) (active : processIsRunning state.process.exitStatus = true) :
    Live state.sys state.process.handle := by
  rcases core.status with ⟨-, live⟩ | ⟨stored, -⟩
  · exact live
  · rw [Stored, active] at stored
    cases stored

/-- Under the number of the handle is the child, while no status is stored. -/
theorem Core.there (core : Core child state) (active : processIsRunning state.process.exitStatus = true) :
    ∃ exited, state.sys.procs state.process.handle.pid = some ⟨child, true, exited⟩ := by
  obtain ⟨other, exited, meant, there⟩ := core.live active
  rw [core.meant] at meant
  cases meant
  exact ⟨exited, there⟩

theorem runs_false {sys : Sys} {handle : Handle} : sys.runs handle = false ↔
    ∀ child own, sys.procs handle.pid = some ⟨child, own, none⟩ → handle.child ≠ some child := by
  unfold Sys.runs
  split
  · rename_i other own there
    constructor
    · intro distinct child own here
      rw [there] at here
      cases here
      simpa using distinct
    · intro ended
      simpa using ended other own there
  · rename_i different
    constructor
    · intro _ child own there
      exact absurd there (different child own)
    · intro _
      rfl

theorem runs_update {sys : Sys} {handle : Handle} {pid : Int} {value : Option Proc}
    (same : final.procs = Function.update sys.procs pid value)
    (here : ∀ child own, value = some ⟨child, own, none⟩ → handle.child ≠ some child)
    (ended : sys.runs handle = false) : final.runs handle = false := by
  apply runs_false.mpr
  intro child own there
  rw [same, Function.update_apply] at there
  split at there
  · exact here child own there
  · exact runs_false.mp ended child own there

theorem runs_there {sys : Sys} {handle : Handle} {exited : Option ExitStatus} (meant : handle.child = some child)
    (there : sys.procs handle.pid = some ⟨child, true, exited⟩) : sys.runs handle = exited.isNone := by
  unfold Sys.runs
  rw [there]
  cases exited with
  | none => simp [meant]
  | some status => rfl

/-- An operation on the handle while no status is stored. -/
theorem Core.effect {collected : Option ExitStatus} (core : Core child state)
    (active : processIsRunning state.process.exitStatus = true)
    (effect : Effect state.process.handle state.sys final collected) :
    Advance child state { state with
      sys := final
      process := { state.process with
        exitStatus := (collected.map ExitStatus.status).getD state.process.exitStatus } } := by
  have live := core.live active
  obtain ⟨exited, there⟩ := core.there active
  have noStale := effect.noStale core.noStale fun _ child meant => live.fresh core.consistent meant
  have unstored : ¬ state.Stored := by
    rw [Stored, active]
    exact nofun
  have reported : ∀ child status, state.sys.Reported child status → final.Reported child status :=
    fun _ _ before => before.mono fun _ => effect.grows
  have born : child < final.births := effect.births ▸ core.born
  cases collected with
  | none =>
    obtain ⟨procs, -⟩ := effect.quietly
    refine ⟨⟨core.valid, core.meant, born, noStale, core.consistent.effect effect, ?_⟩,
      ⟨rfl, rfl, fun _ => rfl, ?_, reported⟩, rfl, rfl⟩
    · exact .inl ⟨active, child, exited, core.meant, procs ▸ there⟩
    · show state.sys.runs state.process.handle = false → final.runs state.process.handle = false
      unfold Sys.runs
      rw [procs]
      exact id
  | some status =>
    obtain ⟨-, other, otherExited, otherThere, procs, member, -⟩ := effect.collecting
    rw [there] at otherThere
    cases otherThere
    refine ⟨⟨core.valid, core.meant, born, noStale, core.consistent.effect effect, ?_⟩,
      ⟨rfl, rfl, fun stored => absurd stored unstored, ?_, reported⟩, rfl, rfl⟩
    · refine .inr ⟨status.ended, _, member, ?_⟩
      simp [Syscall.reaped]
    · exact runs_update procs fun _ _ nothing => nomatch nothing

theorem Core.outside (core : Core child state) (consistent : final.Consistent) (log : final.log = state.sys.log)
    (births : state.sys.births ≤ final.births) (kept : ∀ handle, Live state.sys handle → Live final handle)
    (ended : state.sys.runs state.process.handle = false → final.runs state.process.handle = false) :
    Advance child state { state with sys := final } := by
  have reported : ∀ child status, state.sys.Reported child status → final.Reported child status :=
    fun _ _ before => before.mono fun _ member => log ▸ member
  have noStale : final.NoStale := by
    unfold Sys.NoStale
    rw [log]
    exact core.noStale
  refine ⟨⟨core.valid, core.meant, Nat.lt_of_lt_of_le core.born births, noStale, consistent, ?_⟩,
    ⟨rfl, rfl, fun _ => rfl, ended, reported⟩, rfl, rfl⟩
  rcases core.status with ⟨active, live⟩ | ⟨stored, before⟩
  · exact .inl ⟨active, kept _ live⟩
  · exact .inr ⟨stored, reported _ _ before⟩

theorem Core.polls {used : Used} {ec : ErrorCode} (core : Core child state)
    (polls : used.Polls state.process state.sys ec) :
    Advance child state { state with sys := used.sys, process := used.process } := by
  rcases polls with ⟨-, same, sys⟩ | ⟨⟨empty, -, -⟩, -, -⟩ | ⟨active, collected, effect, same⟩
  · rw [same, sys]
    exact core.refl
  · exact absurd core.valid (not_lt.mpr empty)
  · rw [same]
    exact core.effect active effect

/-- The poll keeps its error_code, and once it neither fails nor asks to wait again, a
status is stored. -/
theorem Core.poll (core : Core child state) (ec : ErrorCode) (polls : Bool) :
    Advance child state (state.poll state.process.handle ec polls).1 ∧
      (state.poll state.process.handle ec polls).2.1 = ec ∧
      ((state.poll state.process.handle ec polls).2.2 = false → ec.failed = false → polls = true →
        (state.poll state.process.handle ec polls).1.Stored) := by
  unfold State.poll
  rw [if_neg (not_le.mpr core.valid)]
  split
  · rename_i asks
    -- the child is there, so waitpid does not fail
    obtain ⟨exited, there⟩ := core.there asks.2
    cases exited with
    | none =>
      simp only [Sys.waitNoHang, there, State.waited]
      refine ⟨core.effect asks.2 (.call ⟨core.valid, rfl, rfl⟩), trivial, ?_⟩
      intro again clear
      rw [clear] at again
      cases again
    | some status =>
      simp only [Sys.waitNoHang, there, State.waited]
      exact ⟨core.effect asks.2 (.collect core.valid status there), trivial, fun _ _ _ => status.ended⟩
  · rename_i quiet
    refine ⟨core.refl, rfl, fun _ _ polls => ?_⟩
    by_contra unstored
    exact quiet ⟨polls, by simpa [Stored] using unstored⟩

/-- When the descriptor is ready the wait neither fails nor blocks. -/
theorem Core.waitBlocking (core : Core child state) (ec : ErrorCode) (answer : Answer)
    (ready : ec.failed = false → state.sys.runs state.process.handle = false) :
    Advance child state (state.waitBlocking state.process.handle ec answer).1 ∧
      (state.waitBlocking state.process.handle ec answer).2 = ec ∧
      (ec.failed = false → (state.waitBlocking state.process.handle ec answer).1.Stored) := by
  unfold State.waitBlocking
  split
  · rename_i asks
    obtain ⟨exited, there⟩ := core.there asks.2
    -- the descriptor is ready, so the child is a zombie and the call returns at once
    have runs := ready asks.1
    rw [runs_there core.meant there] at runs
    cases exited with
    | none => cases runs
    | some status =>
      simp only [Sys.waitFor, there, State.waited]
      exact ⟨core.effect asks.2 (.collect core.valid status there), trivial, fun _ => status.ended⟩
  · rename_i quiet
    refine ⟨core.refl, rfl, fun clear => ?_⟩
    by_contra unstored
    exact quiet ⟨clear, by simpa [Stored] using unstored⟩

end State

open State

/-! ## The operations -/

/-- What a phase says about the operation and the object. -/
def Operation.Ok (state : State) (op : Operation) : Prop :=
  op.handle = state.process.handle ∧
    match op.phase with
    | .waiting source => state.flavour = .fd → source = .descriptor
    | .woken ec => (op.cancelled = false → ec = .clear ∨ state.flavour = .signal ∧ ec = aborted) ∧
        (state.flavour = .fd → ec.failed = false → state.sys.runs op.handle = false)
    | .finishing ec => (op.cancelled = false → ec = .clear) ∧ (ec.failed = false → state.Stored)
    | .completer code => state.Stored ∧ code = state.process.exitStatus
    | .done => True

/-- A completion reports the status of the child, unless the caller cancelled the operation. -/
def Completion.Ok (child : Nat) (sys : Sys) (completion : Completion) : Prop :=
  completion.cancelled = false →
    completion.ec = .clear ∧ ∃ status, sys.Reported child status ∧ completion.exitCode = evaluateExitCode status

structure Sound (child : Nat) (state : State) : Prop where
  core : Core child state
  ops : ∀ name op, state.ops name = some op → op.Ok state
  completed : ∀ completion ∈ state.completed, completion.Ok child state.sys
  done : ∀ completion ∈ state.completed, ∃ op, state.ops completion.name = some op ∧ op.phase = .done
  once : (state.completed.map Completion.name).Nodup

section
variable {child name : Nat} {state after next : State} {op : Operation} {ec : ErrorCode} {source : Source}
  {signalled : Bool}

theorem Operation.Ok.later (ok : op.Ok state) (later : Later state after) : op.Ok after := by
  obtain ⟨handle, phase⟩ := ok
  refine ⟨handle.trans later.handle.symm, ?_⟩
  have stored (before : state.Stored) : after.Stored := by
    unfold State.Stored
    rw [later.stored before]
    exact before
  cases here : op.phase with
  | waiting source =>
    rw [here] at phase
    exact later.flavour.symm ▸ phase
  | woken ec =>
    rw [here] at phase
    -- a descriptor that is ready stays ready: the child does not run again
    refine ⟨later.flavour.symm ▸ phase.1, fun flavour clear => ?_⟩
    have ended := phase.2 (later.flavour ▸ flavour) clear
    rw [handle] at ended ⊢
    exact later.ended ended
  | finishing ec =>
    rw [here] at phase
    exact ⟨phase.1, fun clear => stored (phase.2 clear)⟩
  | completer code =>
    rw [here] at phase
    exact ⟨stored phase.1, phase.2.trans (later.stored phase.1).symm⟩
  | done => trivial

theorem Sound.advance (sound : Sound child state) (advance : Advance child state after) : Sound child after where
  core := advance.core
  ops name op entry := by
    rw [advance.ops] at entry
    exact (sound.ops name op entry).later advance.later
  completed completion member := by
    rw [advance.completed] at member
    intro kept
    obtain ⟨clear, status, reported, same⟩ := sound.completed completion member kept
    exact ⟨clear, status, advance.later.reported child status reported, same⟩
  done completion member := by
    rw [advance.completed] at member
    rw [advance.ops]
    exact sound.done completion member
  once := by
    rw [advance.completed]
    exact sound.once

/-- The operation has not completed. -/
def Open (state : State) (name : Nat) : Prop := ∀ op, state.ops name = some op → op.phase ≠ .done

theorem Sound.fresh (sound : Sound child state) (isOpen : Open state name) :
    ∀ completion ∈ state.completed, completion.name ≠ name := by
  rintro completion member rfl
  -- what has completed is done, and nothing restarts it
  obtain ⟨op, entry, done⟩ := sound.done completion member
  exact isOpen op entry done

theorem Sound.setPhase (sound : Sound child state) (op : Operation) (isOpen : Open state name) (phase : Phase)
    (ok : Operation.Ok state { op with phase := phase }) : Sound child (state.setPhase name op phase) where
  core := ⟨sound.core.valid, sound.core.meant, sound.core.born, sound.core.noStale, sound.core.consistent,
    sound.core.status⟩
  ops other op' entry := by
    change Function.update state.ops name (some { op with phase := phase }) other = some op' at entry
    rw [Function.update_apply] at entry
    split at entry
    · cases entry
      exact ok
    · exact sound.ops other op' entry
  completed := sound.completed
  done completion member := by
    obtain ⟨op', entry, done⟩ := sound.done completion member
    refine ⟨op', ?_, done⟩
    change Function.update state.ops name (some { op with phase := phase }) completion.name = some op'
    rw [Function.update_of_ne (sound.fresh isOpen completion member)]
    exact entry
  once := sound.once

theorem Sound.complete (sound : Sound child state) (isOpen : Open state name) (handle : op.handle = state.process.handle)
    (stored : op.cancelled = false → ec = .clear ∧ state.Stored) :
    Sound child (state.complete name op ec state.process.exitStatus) := by
  have done := sound.setPhase op isOpen .done ⟨handle, trivial⟩
  refine ⟨⟨done.core.valid, done.core.meant, done.core.born, done.core.noStale, done.core.consistent,
    done.core.status⟩, done.ops, ?_, ?_, ?_⟩
  · intro completion member
    rcases List.mem_cons.mp member with rfl | before
    · intro kept
      obtain ⟨clear, stored⟩ := stored kept
      rcases sound.core.status with ⟨active, -⟩ | ⟨-, reported⟩
      · rw [State.Stored, active] at stored
        cases stored
      · exact ⟨clear, _, reported, rfl⟩
    · exact sound.completed completion before
  · intro completion member
    rcases List.mem_cons.mp member with rfl | before
    · exact ⟨{ op with phase := .done }, Function.update_self .., rfl⟩
    · exact done.done completion before
  · apply List.nodup_cons.mpr
    refine ⟨?_, sound.once⟩
    intro member
    obtain ⟨completion, before, same⟩ := List.mem_map.mp member
    exact sound.fresh isOpen completion before same

theorem Sound.wakeSignals (sound : Sound child state) (allowed : ec = .clear ∨ state.flavour = .signal ∧ ec = aborted) :
    Sound child (state.wakeSignals ec) where
  core := ⟨sound.core.valid, sound.core.meant, sound.core.born, sound.core.noStale, sound.core.consistent,
    sound.core.status⟩
  ops other op' entry := by
    obtain ⟨op, before, rfl⟩ := Option.map_eq_some_iff.mp entry
    have ok := sound.ops other op before
    split
    · rename_i waits
      obtain ⟨handle, phase⟩ := ok
      rw [waits] at phase
      -- the fd flavour does not wait for signals
      exact ⟨handle, fun _ => allowed, fun flavour => nomatch phase flavour⟩
    · exact ok
  completed := sound.completed
  done completion member := by
    obtain ⟨op, entry, done⟩ := sound.done completion member
    refine ⟨op, ?_, done⟩
    change (state.ops completion.name).map _ = some op
    rw [entry, Option.map_some, if_neg]
    rw [done]
    exact nofun
  once := sound.once

theorem Open.advance (isOpen : Open state name) (advance : Advance child state after) : Open after name := by
  unfold Open
  rw [advance.ops]
  exact isOpen

theorem Sound.await (sound : Sound child state) (op : Operation) (source : Source) (signalled : Bool)
    (isOpen : Open state name) (handle : op.handle = state.process.handle)
    (allowed : state.flavour = .fd → source = .descriptor) : Sound child (state.await name op source signalled) := by
  apply sound.setPhase op isOpen
  split
  · rename_i early
    refine ⟨handle, fun _ => .inl rfl, fun flavour => ?_⟩
    rw [allowed flavour] at early
    cases early.2
  · exact ⟨handle, allowed⟩

theorem Sound.enter (sound : Sound child state) (isOpen : Open state name) (handle : op.handle = state.process.handle)
    (clear : op.cancelled = false → ec = .clear) {polls : Bool} (asks : ec.failed = false → polls = true)
    (allowed : state.flavour = .fd → source = .descriptor) :
    Sound child (state.enter name op ec polls source signalled) := by
  unfold State.enter
  rw [handle]
  obtain ⟨advance, same, stored⟩ := sound.core.poll ec polls
  have polled := sound.advance advance
  have isOpen' := isOpen.advance advance
  dsimp only
  split
  · exact polled.await op source signalled isOpen' (handle.trans advance.later.handle.symm) (advance.later.flavour.symm ▸ allowed)
  · rename_i enough
    apply polled.setPhase op isOpen'
    rw [same]
    exact ⟨handle.trans advance.later.handle.symm, clear,
      fun unfailed => stored (by simpa using enough) unfailed (asks unfailed)⟩

theorem Sound.handleWait (sound : Sound child state) (isOpen : Open state name) :
    Sound child (state.handleWait name op signalled) := by
  unfold State.handleWait
  dsimp only
  split
  · rename_i flavour
    have awaiting := sound.await { op with handle := state.process.handle } .signals signalled isOpen rfl (by simp [flavour])
    exact awaiting.wakeSignals (.inr ⟨flavour, rfl⟩)
  · exact sound.enter isOpen rfl (fun _ => rfl) (fun _ => rfl) (fun _ => rfl)
  · rename_i flavour
    exact sound.enter isOpen rfl (fun _ => rfl) (fun _ => rfl) (by simp [flavour])

theorem Sound.completion (sound : Sound child state) (isOpen : Open state name)
    (handle : op.handle = state.process.handle) (clear : op.cancelled = false → ec = .clear)
    (stored : ec.failed = false → state.Stored) : Sound child (state.completion name op ec signalled) := by
  unfold State.completion
  split
  · exact sound.handleWait isOpen
  · apply sound.complete isOpen handle
    intro kept
    refine ⟨clear kept, stored ?_⟩
    rw [clear kept]
    rfl

theorem Sound.wake (sound : Sound child state) (entry : state.ops name = some op) (woken : op.phase = .woken ec)
    (answer : Answer) : Sound child (state.wake name op ec signalled answer) := by
  obtain ⟨handle, phase⟩ := sound.ops name op entry
  rw [woken] at phase
  obtain ⟨clear, ended⟩ := phase
  have isOpen : Open state name := by
    intro other found
    rw [entry] at found
    cases found
    rw [woken]
    exact nofun
  unfold State.wake
  split
  · -- an abort that the caller did not ask for is another operation's start
    apply sound.enter isOpen handle
    · intro kept
      rcases clear kept with rfl | ⟨-, rfl⟩
      · simp
      · simp [kept]
    · intro unfailed
      simp [unfailed]
    · intro flavour
      simp_all
  · rename_i flavour
    rw [handle] at ended ⊢
    obtain ⟨advance, same, stored⟩ := sound.core.waitBlocking ec answer (ended flavour)
    have clear' (kept : op.cancelled = false) : ec = .clear := by
      rcases clear kept with clear | ⟨signal, -⟩
      · exact clear
      · rw [flavour] at signal
        cases signal
    dsimp only
    rw [same]
    exact (sound.advance advance).completion (isOpen.advance advance) (handle.trans advance.later.handle.symm) clear' stored
  · rename_i flavour
    apply sound.enter isOpen handle
    · intro kept
      rcases clear kept with clear | ⟨signal, -⟩
      · exact clear
      · rw [flavour] at signal
        cases signal
    · exact fun _ => rfl
    · intro fd
      rw [flavour] at fd
      cases fd

theorem Sound.start (sound : Sound child state) (unused : state.ops name = none) :
    Sound child (state.start name signalled) := by
  have isOpen : Open state name := by
    intro op entry
    rw [unused] at entry
    cases entry
  unfold State.start
  split
  · rename_i stored
    exact sound.setPhase _ isOpen _ ⟨rfl, stored, rfl⟩
  · exact sound.handleWait isOpen

theorem Sound.cancel (sound : Sound child state) (entry : state.ops name = some op) (isOpen : Open state name) :
    Sound child (state.cancel name op) := by
  obtain ⟨handle, phase⟩ := sound.ops name op entry
  unfold State.cancel
  split
  · rename_i source waits
    apply sound.setPhase _ isOpen
    refine ⟨handle, ?_, ?_⟩
    · intro kept
      cases kept
    · intro _ failed
      cases failed
  · apply sound.setPhase _ isOpen
    refine ⟨handle, ?_⟩
    dsimp only
    -- an operation that is cancelled promises less
    cases here : op.phase with
    | waiting source =>
      rw [here] at phase
      exact phase
    | woken ec =>
      rw [here] at phase
      exact ⟨fun kept => (nomatch kept), phase.2⟩
    | finishing ec =>
      rw [here] at phase
      exact ⟨fun kept => (nomatch kept), phase.2⟩
    | completer code =>
      rw [here] at phase
      exact phase
    | done => trivial

theorem step_sound {event : Event} (sound : Sound child state) (taken : step state event = some next) :
    Sound child next := by
  have isOpen {name : Nat} {op : Operation} (entry : state.ops name = some op) (unfinished : op.phase ≠ .done) :
      Open state name := by
    intro other found
    rw [entry] at found
    cases found
    exact unfinished
  cases step_cases taken with
  | start unused => exact sound.start unused
  | running => exact sound.advance (sound.core.polls (running_polls _))
  | wait => exact sound.advance (sound.core.polls (wait_polls _ _))
  | cancel entry unfinished => exact sound.cancel entry (isOpen entry unfinished)
  | deliver => exact sound.wakeSignals (.inl rfl)
  | @ready name op entry waits ended =>
    apply sound.setPhase op (isOpen entry (by simp [waits]))
    exact ⟨(sound.ops name op entry).1, fun _ => .inl rfl, fun _ _ => ended⟩
  | wake entry woken => exact sound.wake entry woken _
  | @finish name _ op _ entry finishing =>
    obtain ⟨handle, phase⟩ := sound.ops name op entry
    rw [finishing] at phase
    exact sound.completion (isOpen entry (by simp [finishing])) handle phase.1 phase.2
  | @complete name _ op _ entry completer =>
    obtain ⟨handle, phase⟩ := sound.ops name op entry
    rw [completer] at phase
    rw [phase.2]
    exact sound.complete (isOpen entry (by simp [completer])) handle fun _ => ⟨rfl, phase.1⟩
  | @exit pid status _ there =>
    exact sound.advance (sound.core.outside (sound.core.consistent.ended there status) rfl (Nat.le_refl _)
      (fun _ live => live.ended there status) (runs_update rfl fun _ _ other => nomatch other))
  | @appear pid own free =>
    -- a process that appears is not the child that was born before
    have another : ∀ child' own', some (Proc.mk state.sys.births own none) = some ⟨child', own', none⟩ →
        state.process.handle.child ≠ some child' := by
      intro child' own' same meant
      cases same
      rw [sound.core.meant] at meant
      exact Nat.ne_of_lt sound.core.born (Option.some.inj meant)
    exact sound.advance (sound.core.outside (sound.core.consistent.spawn own) rfl (Nat.le_succ _)
      (fun _ live => live.spawn free own) (runs_update rfl another))
  | @vanish pid _ _ there =>
    have foreign : ∀ proc, state.sys.procs pid = some proc → proc.own = false := by
      intro proc entry
      rw [there] at entry
      cases entry
      rfl
    exact sound.advance (sound.core.outside (sound.core.consistent.remove pid) rfl (Nat.le_refl _)
      (fun _ live => live.remove foreign) (runs_update rfl fun _ _ nothing => nomatch nothing))

/-! ## Once a status is stored -/

theorem poll_stored (stored : state.Stored) (handle : Handle) (ec : ErrorCode) (polls : Bool) :
    (state.poll handle ec polls).1 = state := by
  unfold State.poll
  split
  · rfl
  · split
    · rename_i asks
      rw [State.Stored, asks.2] at stored
      cases stored
    · rfl

theorem enter_stored (stored : state.Stored) (polls : Bool) :
    (state.enter name op ec polls source signalled).sys = state.sys := by
  unfold State.enter
  dsimp only
  rw [poll_stored stored]
  split
  · rfl
  · rfl

theorem handleWait_stored (stored : state.Stored) : (state.handleWait name op signalled).sys = state.sys := by
  unfold State.handleWait
  dsimp only
  split
  · rfl
  · exact enter_stored stored true
  · exact enter_stored stored true

theorem completion_stored (stored : state.Stored) : (state.completion name op ec signalled).sys = state.sys := by
  unfold State.completion
  split
  · exact handleWait_stored stored
  · rfl

theorem waitBlocking_stored (stored : state.Stored) (handle : Handle) (answer : Answer) :
    (state.waitBlocking handle ec answer).1 = state := by
  unfold State.waitBlocking
  split
  · rename_i asks
    rw [State.Stored, asks.2] at stored
    cases stored
  · rfl

theorem wake_stored (stored : state.Stored) (answer : Answer) :
    (state.wake name op ec signalled answer).sys = state.sys := by
  unfold State.wake
  split
  · exact enter_stored stored _
  · dsimp only
    rw [waitBlocking_stored stored]
    exact completion_stored stored
  · exact enter_stored stored true

theorem polls_stored {used : Used} (stored : state.Stored) (polls : used.Polls state.process state.sys ec) :
    used.sys = state.sys := by
  rcases polls with ⟨-, -, same⟩ | ⟨-, -, same⟩ | ⟨active, -⟩
  · exact same
  · exact same
  · rw [State.Stored, active] at stored
    cases stored

/-- No step calls waitpid after a status was stored. -/
theorem step_silent {event : Event} (stored : state.Stored) (taken : step state event = some next) :
    next.sys.log = state.sys.log := by
  cases step_cases taken with
  | start unused =>
    unfold State.start
    unfold State.Stored at stored
    rw [if_pos stored]
    rfl
  | running => exact congrArg Sys.log (polls_stored stored (running_polls _))
  | wait => exact congrArg Sys.log (polls_stored stored (wait_polls _ _))
  | cancel entry unfinished =>
    unfold State.cancel
    split
    · rfl
    · rfl
  | deliver => rfl
  | ready => rfl
  | wake entry woken => exact congrArg Sys.log (wake_stored stored _)
  | finish entry finishing => exact congrArg Sys.log (completion_stored stored)
  | complete => rfl
  | exit => rfl
  | appear => rfl
  | vanish => rfl

end

/-- An object attached to a child of ours, before the first operation. -/
structure State.Initial (child : Nat) (state : State) : Prop where
  valid : 0 < state.process.handle.pid
  meant : state.process.handle.child = some child
  unset : state.process.exitStatus = stillActive
  there : ∃ exited, state.sys.procs state.process.handle.pid = some ⟨child, true, exited⟩
  consistent : state.sys.Consistent
  noStale : state.sys.NoStale
  ops : ∀ name, state.ops name = none
  completed : state.completed = []

theorem State.Initial.sound {child : Nat} {state : State} (initial : state.Initial child) : Sound child state := by
  obtain ⟨exited, there⟩ := initial.there
  have born := initial.consistent.bounded _ _ there
  have active : processIsRunning state.process.exitStatus = true := by rw [initial.unset]; rfl
  refine ⟨⟨initial.valid, initial.meant, born, initial.noStale, initial.consistent, ?_⟩, ?_, ?_, ?_, ?_⟩
  · exact .inl ⟨active, child, exited, initial.meant, there⟩
  · intro name op entry
    simp [initial.ops] at entry
  · simp [initial.completed]
  · simp [initial.completed]
  · simp [initial.completed]

/-- In every run, in every flavour: no waitpid for the child after its status was stored, no
operation completes twice, and one that the caller did not cancel completes without an
error and with the status of the child. -/
theorem async_wait_completes (child : Nat) (state final : State) (events : List Event) (initial : state.Initial child)
    (reached : Transition.run step state events = some final) :
    (final.sys.NoStale ∧ ∀ event next, final.Stored → step final event = some next → next.sys.log = final.sys.log) ∧
      (final.completed.map Completion.name).Nodup ∧
      ∀ completion ∈ final.completed, completion.cancelled = false →
        completion.ec = .clear ∧ ∃ status, final.sys.Reported child status ∧
          completion.exitCode = evaluateExitCode status := by
  have preserved : Transition.Preserves step (fun _ _ => True) (Sound child) :=
    fun _ _ _ sound _ taken => step_sound sound taken
  have sound := Transition.run_invariant preserved initial.sound Transition.admits_true reached
  exact ⟨⟨sound.core.noStale, fun event next stored taken => step_silent stored taken⟩, sound.once, sound.completed⟩

/-- A launched child with pid 5. -/
def attached (flavour : Flavour) : State where
  flavour := flavour
  sys := { procs := fun pid => if pid = 5 then some ⟨0, true, none⟩ else none, births := 1 }
  process := { handle := ⟨5, some 0⟩, attached := some 0 }

theorem attached_initial (flavour : Flavour) : (attached flavour).Initial 0 where
  valid := by
    change (0 : Int) < 5
    omega
  meant := rfl
  unset := rfl
  there := ⟨none, rfl⟩
  consistent := by
    have only (pid : Int) (proc : Proc) (there : (attached flavour).sys.procs pid = some proc) :
        pid = 5 ∧ proc = ⟨0, true, none⟩ := by
      simp only [attached, Option.ite_none_right_eq_some, Option.some.injEq] at there
      exact ⟨there.1, there.2.symm⟩
    have uncollected (child : Nat) : ¬ (attached flavour).sys.Collected child := by
      simp [Sys.Collected, attached]
    refine ⟨?_, ?_, ?_, ?_⟩
    · intro pid proc there
      rw [(only pid proc there).2]
      exact Nat.one_pos
    · intro first second left right leftEntry rightEntry _
      rw [(only first left leftEntry).1, (only second right rightEntry).1]
    · intro child collected
      exact absurd collected (uncollected child)
    · intro child collected
      exact absurd collected (uncollected child)
  noStale := List.Pairwise.nil
  ops _ := rfl
  completed := rfl

/-- Two operations on the signal flavour: the second wakes the first, SIGCHLD both, and the
first of them collects the status. -/
theorem async_wait_completes_twice : ∃ final,
    Transition.run step (attached .signal) [.start 0 false, .wake 0 false {}, .start 1 false, .wake 1 false {},
      .wake 0 false {}, .exit 5 ⟨0x300, rfl⟩, .deliver, .wake 1 false {}, .wake 0 false {}, .finish 1 false,
      .finish 0 false] = some final ∧
      (final.completed.map Completion.name).Nodup ∧
      final.completed = [⟨0, .clear, 3, false⟩, ⟨1, .clear, 3, false⟩] := by
  exact ⟨_, rfl, (async_wait_completes 0 (attached .signal) _ [.start 0 false, .wake 0 false {}, .start 1 false,
    .wake 1 false {}, .wake 0 false {}, .exit 5 ⟨0x300, rfl⟩, .deliver, .wake 1 false {}, .wake 0 false {},
    .finish 1 false, .finish 0 false] (attached_initial .signal) rfl).2.1, rfl⟩

end BoostProcess.V2.Process.AsyncWait
