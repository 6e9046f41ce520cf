import BoostProcess.V1.Posix.SigchldCalls
import Mathlib.Data.List.Nodup

/-! sigchld_service: every receiver has a wake-up, unless a wait on the signal set was cancelled. -/

set_option autoImplicit false

namespace BoostProcess.V1

open BoostProcess.V2 (ErrorCode ExitStatus processIsRunning)
open Transition

/-- Work for `_handle_signal` that brings it an error. -/
def Task.fails : Task → Bool
  | complete _ => false
  | handleSignal ec | postHandleSignal ec => ec.failed

/-- What the loop is done with. -/
def Loop.visited : Loop → List Receiver
  | idle => []
  | between _ visited | calling _ visited _ => visited

@[simp] theorem SignalWait.fails_completed (wait : SignalWait) (ec : ErrorCode) :
    (wait.completed ec).fails = ec.failed := by
  cases wait <;> rfl

namespace SigchldService

variable {service next : SigchldService}

/-- A SIGCHLD is on its way to `_handle_signal`. -/
def Signalled (service : SigchldService) : Prop :=
  service.raised = true ∨ 0 < service.queued ∨ ∃ task ∈ service.posted, task.handles = true

def Woken (service : SigchldService) (receiver : Receiver) : Prop :=
  service.kernel.Running receiver.first ∨ service.Signalled

structure Covered (service : SigchldService) : Prop where
  healthy : ∀ task ∈ service.posted, task.fails = false
  proceeds : service.loop.failed = false
  waits : service.armed = 0 → service.receivers = []
  visited : ∀ receiver ∈ service.loop.visited, receiver.first ≠ 0 → service.Woken receiver
  resting : service.loop = .idle → ∀ receiver ∈ service.ahead, service.Woken receiver

theorem handles_of_not_armed (idle : service.armed = 0) {task : Task} (member : task ∈ service.posted) :
    task.handles = false := by
  unfold armed at idle
  have none : service.posted.countP Task.handles = 0 := by omega
  exact Bool.not_eq_true _ ▸ List.countP_eq_zero.mp none task member

theorem complete_of_nothing (ec : ErrorCode) (nothing : service.pending = []) : service.complete ec = service := by
  unfold complete
  rw [nothing, List.map_nil, List.append_nil, ← nothing]

theorem Signalled.signalWait (signalled : service.Signalled) (wait : SignalWait) :
    Signalled (service.signalWait wait) := by
  unfold SigchldService.signalWait
  split
  · exact .inr (.inr ⟨_, List.mem_append_right _ (List.mem_singleton.mpr rfl), wait.handles_completed _⟩)
  · exact signalled

namespace Covered

theorem start (kernel : Kernel) : Covered (SigchldService.start kernel) where
  healthy _ member := absurd member List.not_mem_nil
  proceeds := rfl
  waits _ := rfl
  visited _ member := absurd member List.not_mem_nil
  resting _ _ member := absurd member List.not_mem_nil

/-- Only the kernel moves: a child goes on running, or it raises a signal. -/
theorem kernel (covered : service.Covered) {kernel : Kernel} {raised : Bool}
    (keeps : (∀ pid, service.kernel.Running pid → kernel.Running pid) ∧ (service.raised = true → raised = true) ∨
      raised = true) :
    Covered { service with kernel := kernel, raised := raised } := by
  have woken (receiver : Receiver) (woken : service.Woken receiver) :
      Woken { service with kernel := kernel, raised := raised } receiver := by
    cases keeps with
    | inl keeps => exact woken.imp (keeps.1 receiver.first) (Or.imp_left keeps.2)
    | inr raises => exact .inr (.inl raises)
  constructor
  · exact covered.healthy
  · exact covered.proceeds
  · exact covered.waits
  · exact fun receiver member unmarked => woken receiver (covered.visited receiver member unmarked)
  · exact fun idle receiver member => woken receiver (covered.resting idle receiver member)

/-- Everything has a wake-up, since a signal is on its way. -/
theorem of_signalled (healthy : ∀ task ∈ service.posted, task.fails = false) (proceeds : service.loop.failed = false)
    (waits : service.armed = 0 → service.receivers = []) (signalled : service.Signalled) : Covered service :=
  ⟨healthy, proceeds, waits, fun _ _ _ => .inr signalled, fun _ _ _ => .inr signalled⟩

theorem deliver (covered : service.Covered) : Covered service.deliver := by
  unfold SigchldService.deliver
  split
  · exact of_signalled covered.healthy covered.proceeds covered.waits (.inr (.inl (Nat.succ_pos _)))
  · rename_i pending
    obtain ⟨wait, waiting⟩ := List.exists_mem_of_ne_nil _ pending
    have completed : wait.completed .clear ∈ service.posted ++ service.pending.map (·.completed .clear) :=
      List.mem_append_right _ (List.mem_map_of_mem waiting)
    apply of_signalled
    · intro task member
      cases List.mem_append.mp member with
      | inl old => exact covered.healthy task old
      | inr new =>
        obtain ⟨wait, -, rfl⟩ := List.mem_map.mp new
        exact wait.fails_completed _
    · exact covered.proceeds
    · intro idle
      -- the completed waits are posted now
      have none := handles_of_not_armed idle completed
      exact absurd ((wait.handles_completed _).symm.trans none) (by simp)
    · exact .inr (.inr ⟨_, completed, wait.handles_completed _⟩)

theorem posts (covered : service.Covered) (call : Call) :
    Covered { service with posted := service.posted ++ [.complete call] } := by
  have woken (receiver : Receiver) (woken : service.Woken receiver) :
      Woken { service with posted := service.posted ++ [.complete call] } receiver := by
    apply woken.imp_right
    apply Or.imp_right
    apply Or.imp_right
    intro signalled
    obtain ⟨task, member, handles⟩ := signalled
    exact ⟨task, List.mem_append_left _ member, handles⟩
  constructor
  · intro task member
    cases List.mem_append.mp member with
    | inl old => exact covered.healthy task old
    | inr new => exact List.mem_singleton.mp new ▸ rfl
  · exact covered.proceeds
  · intro idle
    apply covered.waits
    simpa [armed, Task.handles] using idle
  · exact fun receiver member unmarked => woken receiver (covered.visited receiver member unmarked)
  · exact fun idle receiver member => woken receiver (covered.resting idle receiver member)

theorem armed_signalWait (wait : SignalWait) (service : SigchldService) :
    (service.signalWait wait).armed ≠ 0 := by
  unfold SigchldService.signalWait armed
  split
  · simp only [List.countP_append, List.countP_singleton, SignalWait.handles_completed, if_true]
    omega
  · simp only [List.length_append, List.length_singleton]
    omega

theorem healthy_signalWait (healthy : ∀ task ∈ service.posted, task.fails = false) (wait : SignalWait) :
    ∀ task ∈ (service.signalWait wait).posted, task.fails = false := by
  unfold SigchldService.signalWait
  split
  · intro task member
    cases List.mem_append.mp member with
    | inl old => exact healthy task old
    | inr new => exact List.mem_singleton.mp new ▸ wait.fails_completed _
  · exact healthy

theorem receive (covered : service.Covered) {pid : Nat} (handler : Nat) (running : service.kernel.Running pid) :
    Covered (service.receive pid handler) := by
  unfold SigchldService.receive
  split
  · rename_i empty
    obtain ⟨passed, ahead⟩ := List.append_eq_nil_iff.mp empty
    constructor
    · exact healthy_signalWait covered.healthy .bound
    · exact (loop_signalWait .bound service).symm ▸ covered.proceeds
    · exact fun idle => absurd idle (armed_signalWait .bound service)
    · intro receiver member unmarked
      rw [loop_signalWait] at member
      apply (covered.visited receiver member unmarked).imp
      · exact fun runs => (kernel_signalWait .bound service).symm ▸ runs
      · exact fun signalled => signalled.signalWait .bound
    · intro _ receiver member
      dsimp only at member
      rw [ahead_signalWait, ahead] at member
      cases List.mem_singleton.mp member
      exact .inl ((kernel_signalWait .bound service).symm ▸ running)
  · rename_i some
    constructor
    · exact covered.healthy
    · exact covered.proceeds
    · exact fun idle => absurd (covered.waits idle) some
    · exact covered.visited
    · intro idle receiver member
      cases List.mem_append.mp member with
      | inl old => exact covered.resting idle receiver old
      | inr new =>
        cases List.mem_singleton.mp new
        exact .inl running

/-- What waitpid leaves of the kernel. -/
theorem asked (covered : service.Covered) {pid : Nat} {kernel : Kernel} {result : WaitPid}
    (asked : service.kernel.waitpid pid = (kernel, result)) : Covered { service with kernel := kernel } :=
  @Covered.kernel _ covered kernel service.raised (.inl ⟨fun _ => Kernel.waitpid_running asked, fun raised => raised⟩)

theorem asyncWait (covered : service.Covered) (pid : Nat) : Covered (service.asyncWait pid) := by
  have registered : Covered { service with registered := service.registered ++ [service.kernel.current pid] } :=
    ⟨covered.healthy, covered.proceeds, covered.waits, covered.visited, covered.resting⟩
  cases asked : service.kernel.waitpid pid with
  | mk kernel result =>
    have asks := registered.asked asked
    simp only [SigchldService.asyncWait, asked]
    cases result with
    | failed err => exact asks.posts _
    | unchanged =>
      obtain ⟨rfl, running⟩ := Kernel.waitpid_unchanged asked
      exact asks.receive _ running
    | changed status =>
      obtain ⟨-, taken, -, rfl⟩ := Kernel.waitpid_changed asked
      simp only [taken.ended, if_true]
      exact asks.posts _

/-- What is run leaves the rest, and it may be posted again or start the loop. -/
theorem runPosted (covered : service.Covered) {index : Nat} {task : Task} (posted : service.posted[index]? = some task)
    (ran : SigchldService.runPosted { service with posted := service.posted.eraseIdx index } task = some next) :
    Covered next := by
  have all := perm_of_posted posted
  have counts := all.countP_eq Task.handles
  have healthy := fun task member => covered.healthy task (all.mem_iff.mp (List.mem_cons_of_mem _ member))
  have fine := covered.healthy task (all.mem_iff.mp List.mem_cons_self)
  rw [List.countP_cons] at counts
  cases runPosted_ran ran with
  | @complete call =>
    -- a call is no work for `_handle_signal`, so what wakes a receiver is still posted
    have woken (receiver : Receiver) (woken : service.Woken receiver) :
        Woken { service with posted := service.posted.eraseIdx index, calls := service.calls ++ [call] } receiver := by
      apply woken.imp_right
      apply Or.imp_right
      apply Or.imp_right
      intro signalled
      obtain ⟨other, member, handles⟩ := signalled
      cases List.mem_cons.mp (all.mem_iff.mpr member) with
      | inl ran => simp [ran, Task.handles] at handles
      | inr left => exact ⟨other, left, handles⟩
    constructor
    · exact healthy
    · exact covered.proceeds
    · intro idle
      apply covered.waits
      simp only [Task.handles, Bool.false_eq_true, if_false] at counts
      simp only [armed] at idle ⊢
      omega
    · exact fun receiver member unmarked => woken receiver (covered.visited receiver member unmarked)
    · exact fun idle receiver member => woken receiver (covered.resting idle receiver member)
  | @postHandleSignal ec =>
    -- every receiver is woken by what is posted now
    have handles : (Task.handleSignal ec).handles = true := rfl
    have last : Task.handleSignal ec ∈ service.posted.eraseIdx index ++ [.handleSignal ec] :=
      List.mem_append_right _ (List.mem_singleton.mpr rfl)
    apply of_signalled
    · intro other member
      cases List.mem_append.mp member with
      | inl old => exact healthy other old
      | inr new => exact List.mem_singleton.mp new ▸ fine
    · exact covered.proceeds
    · intro idle
      have none := handles_of_not_armed idle last
      exact absurd (handles.symm.trans none) (by simp)
    · exact .inr (.inr ⟨_, last, handles⟩)
  | handleSignal =>
    -- the loop has passed nobody yet, and the error it starts with was clear
    constructor
    · exact healthy
    · exact fine
    · exact fun idle => absurd idle (by simp [armed, Loop.busy])
    · exact fun _ member => absurd member List.not_mem_nil
    · exact fun idle => absurd idle (by simp)

/-- The loop moves on and is still in between or in a handler. -/
theorem moves (covered : service.Covered) {loop : Loop} {ahead : List Receiver} {calls : List Call}
    (busy : loop.busy = 1) (proceeds : loop.failed = false)
    (visited : ∀ receiver ∈ loop.visited, receiver.first ≠ 0 → service.Woken receiver) :
    Covered { service with loop := loop, ahead := ahead, calls := calls } where
  healthy := covered.healthy
  proceeds := proceeds
  waits idle := by
    simp only [armed, busy] at idle
    omega
  visited := visited
  resting idle := by
    rw [show loop = .idle from idle] at busy
    cases busy

/-- A receiver is called; the one that is called is not passed yet. -/
theorem call (covered : service.Covered) {ec result : ErrorCode} {visited rest : List Receiver} {receiver : Receiver}
    {status : Int} (loop : service.loop = .between ec visited) :
    Covered (service.call ec visited rest receiver status result) := by
  have proceeds := covered.proceeds
  have passed := covered.visited
  rw [loop] at proceeds passed
  exact covered.moves rfl proceeds passed

/-- The receivers that are left rest, each with what wakes it. -/
theorem finishes (covered : service.Covered) {ec : ErrorCode} {visited : List Receiver}
    (loop : service.loop = .between ec visited) :
    Covered (if visited.filter (·.first ≠ 0) = [] then { service with loop := .idle, ahead := visited.filter (·.first ≠ 0) }
      else SigchldService.signalWait .posting { service with loop := .idle, ahead := visited.filter (·.first ≠ 0) }) := by
  have woken (receiver : Receiver) (member : receiver ∈ visited.filter (·.first ≠ 0)) : service.Woken receiver := by
    obtain ⟨passed, unmarked⟩ := List.mem_filter.mp member
    have woken := covered.visited receiver
    rw [loop] at woken
    exact woken passed (by simpa using unmarked)
  split
  · rename_i empty
    constructor
    · exact covered.healthy
    · rfl
    · exact fun _ => empty
    · exact fun _ member => absurd member List.not_mem_nil
    · exact fun _ receiver member => woken receiver member
  · constructor
    · exact @healthy_signalWait { service with loop := .idle, ahead := _ } covered.healthy .posting
    · rw [loop_signalWait]
      rfl
    · exact fun idle => absurd idle (armed_signalWait .posting _)
    · intro receiver member
      rw [loop_signalWait] at member
      exact absurd member List.not_mem_nil
    · intro _ receiver member
      rw [ahead_signalWait] at member
      apply (woken receiver member).imp
      · intro runs
        rw [kernel_signalWait]
        exact runs
      · exact fun signalled => @Signalled.signalWait { service with loop := .idle, ahead := _ } signalled .posting

theorem advance (covered : service.Covered) (moved : service.advance = some next) : Covered next := by
  have passed := covered.visited
  have proceeds := covered.proceeds
  cases advance_advanced moved with
  | @returns ec visited receiver loop =>
    rw [loop] at passed proceeds
    have success : ec.failed = false := proceeds
    apply covered.moves
    · rfl
    · exact success
    · -- the receiver of the handler that returns is marked
      intro other member unmarked
      cases List.mem_append.mp member with
      | inl old => exact passed other old unmarked
      | inr new =>
        rw [success] at new
        exact absurd (List.mem_singleton.mp new ▸ rfl) unmarked
  | aborts loop ahead failed => exact covered.call loop
  | fails loop ahead success asked => exact (covered.asked asked).call loop
  | changes loop ahead success asked => exact (covered.asked asked).call loop
  | @passes ec visited rest receiver kernel loop ahead success asked =>
    obtain ⟨rfl, running⟩ := Kernel.waitpid_unchanged asked
    rw [loop] at passed
    apply covered.moves
    · rfl
    · exact success
    · -- waitpid has found the child running
      intro other member unmarked
      cases List.mem_append.mp member with
      | inl old => exact passed other old unmarked
      | inr new =>
        cases List.mem_singleton.mp new
        exact .inl running
  | abandons loop ahead failed =>
    rw [loop] at proceeds
    exact absurd (failed.symm.trans proceeds) (by simp)
  | finishes loop ahead success => exact covered.finishes loop

theorem preserved : Preserves step FindsNothing Covered := by
  intro service event next covered nothing taken
  cases step_moved taken with
  | world _ _ wakes => exact covered.kernel wakes
  | deliver => exact covered.deliver
  | asyncWait => exact covered.asyncWait _
  | cancel =>
    unfold cancel
    rw [complete_of_nothing _ (nothing rfl)]
    exact covered
  | runPosted posted ran => exact covered.runPosted posted ran
  | advance moved => exact covered.advance moved

end Covered

/-- With no signal on its way children run that have the numbers of all receivers. -/
theorem running_of_calm (sound : service.Sound) (covered : service.Covered) (quiescent : service.Quiescent)
    (calm : service.raised = false) {receiver : Receiver} (member : receiver ∈ service.ahead) :
    service.kernel.Running receiver.first := by
  have pending : service.pending ≠ [] := by
    intro nothing
    have none := covered.waits (by simp [armed, nothing, quiescent.1, quiescent.2, Loop.busy])
    rw [List.append_eq_nil_iff.mp none |>.2] at member
    exact absurd member List.not_mem_nil
  cases covered.resting quiescent.2 receiver member with
  | inl running => exact running
  | inr signalled =>
    unfold Signalled at signalled
    rw [calm, sound.fresh pending, quiescent.1] at signalled
    simp at signalled

/-! ## After a wait was cancelled -/

/-- Receivers without a wait; nothing starts one again. -/
def Stranded (service : SigchldService) : Prop := service.armed = 0 ∧ service.receivers ≠ []

/-- An error is on its way through `_handle_signal`, or has been. -/
def Doomed (service : SigchldService) : Prop :=
  (∃ task ∈ service.posted, task.fails = true) ∨ service.loop.failed = true ∨ service.Stranded

namespace Doomed

theorem of_kept (doomed : service.Doomed) (posted : ∀ task ∈ service.posted, task.fails = true → task ∈ next.posted)
    (loop : next.loop = service.loop) (stranded : service.Stranded → next.Stranded) : next.Doomed := by
  cases doomed with
  | inl failing =>
    obtain ⟨task, member, fails⟩ := failing
    exact .inl ⟨task, posted task member fails, fails⟩
  | inr later =>
    cases later with
    | inl failed => exact .inr (.inl (loop ▸ failed))
    | inr stays => exact .inr (.inr (stranded stays))

theorem complete (doomed : service.Doomed) (ec : ErrorCode) (raised : Bool) :
    Doomed { service.complete ec with raised := raised } := by
  apply doomed.of_kept
  · exact fun task member _ => List.mem_append_left _ member
  · rfl
  · intro stranded
    have nothing : service.pending = [] := by
      have idle := stranded.1
      unfold armed at idle
      exact List.eq_nil_of_length_eq_zero (by omega)
    rw [complete_of_nothing ec nothing]
    exact stranded

theorem posts (doomed : service.Doomed) (call : Call) :
    Doomed { service with posted := service.posted ++ [.complete call] } := by
  apply doomed.of_kept
  · exact fun task member _ => List.mem_append_left _ member
  · rfl
  · intro stranded
    refine ⟨?_, stranded.2⟩
    have idle := stranded.1
    simpa [armed, Task.handles] using idle

theorem receive (doomed : service.Doomed) (pid handler : Nat) : Doomed (service.receive pid handler) := by
  unfold SigchldService.receive
  split
  · rename_i empty
    apply doomed.of_kept
    · intro task member _
      unfold SigchldService.signalWait
      split
      · exact List.mem_append_left _ member
      · exact member
    · exact loop_signalWait .bound service
    · exact fun stranded => absurd empty stranded.2
  · apply doomed.of_kept
    · exact fun task member _ => member
    · rfl
    · intro stranded
      refine ⟨stranded.1, ?_⟩
      unfold receivers
      simp

theorem asyncWait (doomed : service.Doomed) (pid : Nat) : Doomed (service.asyncWait pid) := by
  cases asked : service.kernel.waitpid pid with
  | mk kernel result =>
    have asks :
        Doomed { service with kernel := kernel, registered := service.registered ++ [service.kernel.current pid] } := doomed
    simp only [SigchldService.asyncWait, asked]
    cases result with
    | failed err => exact asks.posts _
    | unchanged => exact asks.receive _ _
    | changed status =>
      obtain ⟨-, taken, -, rfl⟩ := Kernel.waitpid_changed asked
      simp only [taken.ended, if_true]
      exact asks.posts _

theorem of_handles (doomed : service.Doomed) {index : Nat} {task : Task} (posted : service.posted[index]? = some task)
    (handles : task.handles = true) :
    task.fails = true ∨ (∃ other ∈ service.posted.eraseIdx index, other.fails = true) ∨ service.loop.failed = true := by
  cases doomed with
  | inl failing =>
    obtain ⟨other, member, fails⟩ := failing
    cases List.mem_cons.mp ((perm_of_posted posted).mem_iff.mpr member) with
    | inl ran => exact .inl (ran ▸ fails)
    | inr left => exact .inr (.inl ⟨other, left, fails⟩)
  | inr later =>
    cases later with
    | inl failed => exact .inr (.inr failed)
    | inr stranded =>
      have none := handles_of_not_armed stranded.1 (List.mem_of_getElem? posted)
      exact absurd (handles.symm.trans none) (by simp)

theorem runPosted (doomed : service.Doomed) {index : Nat} {task : Task} (posted : service.posted[index]? = some task)
    (ran : SigchldService.runPosted { service with posted := service.posted.eraseIdx index } task = some next) :
    Doomed next := by
  have all := perm_of_posted posted
  have before := @of_handles _ doomed index task posted
  cases runPosted_ran ran with
  | complete =>
    have counts := all.countP_eq Task.handles
    rw [List.countP_cons] at counts
    apply doomed.of_kept
    · intro other member fails
      cases List.mem_cons.mp (all.mem_iff.mpr member) with
      | inl ran => simp [ran, Task.fails] at fails
      | inr left => exact left
    · rfl
    · intro stranded
      refine ⟨?_, stranded.2⟩
      have idle := stranded.1
      simp only [Task.handles, Bool.false_eq_true, if_false] at counts
      simp only [armed] at idle ⊢
      omega
  | @postHandleSignal ec =>
    -- the error goes on with the work that is posted instead
    obtain fails | ⟨other, left, fails⟩ | failed := before rfl
    · exact .inl ⟨.handleSignal ec, List.mem_append_right _ (List.mem_singleton.mpr rfl), fails⟩
    · exact .inl ⟨other, List.mem_append_left _ left, fails⟩
    · exact .inr (.inl failed)
  | handleSignal idle =>
    -- the error is that of the loop now
    obtain fails | ⟨other, left, fails⟩ | failed := before rfl
    · exact .inr (.inl fails)
    · exact .inl ⟨other, left, fails⟩
    · rw [idle] at failed
      cases failed

/-- While the loop runs no service is stranded, so the error is that of the loop or still to come. -/
theorem of_busy (doomed : service.Doomed) (busy : service.loop.busy = 1) :
    (∃ task ∈ service.posted, task.fails = true) ∨ service.loop.failed = true := by
  cases doomed with
  | inl failing => exact .inl failing
  | inr later =>
    cases later with
    | inl failed => exact .inr failed
    | inr stranded =>
      have idle := stranded.1
      simp only [armed, busy] at idle
      omega

theorem advance (doomed : service.Doomed) (sound : service.Sound) (moved : service.advance = some next) : Doomed next := by
  have still := @of_busy _ doomed
  have single := sound.single
  -- what is posted stays so, and a loop with an error ends in a stranded service
  have failing {ec : ErrorCode} {visited : List Receiver} (loop : service.loop = .between ec visited)
      (success : ec.failed = false) : ∃ task ∈ service.posted, task.fails = true := by
    rw [loop] at still
    exact (still rfl).resolve_right (by simp [Loop.failed, success])
  cases advance_advanced moved with
  | returns loop =>
    rw [loop] at still
    exact (still rfl).imp_right .inl
  | aborts loop ahead failed => exact .inr (.inl failed)
  | fails loop ahead success asked => exact .inl (failing loop success)
  | changes loop ahead success asked => exact .inl (failing loop success)
  | passes loop ahead success asked => exact .inl (failing loop success)
  | abandons loop ahead failed =>
    have waited := sound.waited
    simp only [armed, loop, Loop.busy] at single waited
    refine .inr (.inr ⟨?_, ?_⟩)
    · simp only [armed, Loop.busy]
      omega
    · unfold receivers at waited ⊢
      rw [loop, ahead] at waited
      simpa [Loop.passed] using waited
  | finishes loop ahead success =>
    -- what is posted with an error would be a second wait
    obtain ⟨task, member, fails⟩ := failing loop success
    have counted : 0 < service.posted.countP Task.handles := by
      apply List.countP_pos_iff.mpr
      refine ⟨task, member, ?_⟩
      cases task with
      | complete call => cases fails
      | handleSignal ec => rfl
      | postHandleSignal ec => rfl
    simp only [armed, loop, Loop.busy] at single
    omega

theorem preserved : Preserves step (fun _ _ => True) (fun service => service.Sound ∧ service.Doomed) := by
  intro service event next state _ taken
  obtain ⟨sound, doomed⟩ := state
  refine ⟨Sound.preserved service event next sound trivial taken, ?_⟩
  cases step_moved taken with
  | world => exact doomed
  | deliver =>
    unfold SigchldService.deliver
    split
    · exact doomed
    · exact doomed.complete .clear false
  | asyncWait => exact doomed.asyncWait _
  | cancel => exact doomed.complete operationAborted service.raised
  | runPosted posted ran => exact doomed.runPosted posted ran
  | advance moved => exact doomed.advance sound moved

theorem of_cancel (pending : service.pending ≠ []) : Doomed service.cancel := by
  obtain ⟨wait, waiting⟩ := List.exists_mem_of_ne_nil _ pending
  refine .inl ⟨wait.completed operationAborted, List.mem_append_right _ (List.mem_map_of_mem waiting), ?_⟩
  rw [SignalWait.fails_completed]
  rfl

end Doomed

/-- A run that does not end doomed has cancelled no wait. -/
theorem admits_of_not_doomed {final : SigchldService} {events : List SigchldEvent} (sound : service.Sound)
    (reached : run step service events = some final) (spared : ¬ final.Doomed) :
    Admits step FindsNothing service events := by
  induction events generalizing service with
  | nil => trivial
  | cons event rest ih =>
    obtain ⟨middle, taken, reached⟩ := run_cons.mp reached
    have sound' := Sound.preserved service event middle sound trivial taken
    rw [admits_cons taken]
    refine ⟨?_, ih sound' reached⟩
    rintro rfl
    by_contra pending
    cases taken
    exact spared (run_invariant Doomed.preserved ⟨sound', .of_cancel pending⟩ admits_true reached).2

/-- In every run each handler is called at most once; without an error with what waitpid took from its
own child, if no fork has given the number of a receiver to another one. Where nothing is left to run,
receivers have a wait if and only if no cancel of the run has found one; and if no SIGCHLD is on its
way then, children run that have their numbers. -/
theorem handlers_and_wakeups (kernel : Kernel) (events : List SigchldEvent) (service : SigchldService)
    (reached : run step (start kernel) events = some service) :
    (service.calls.map Call.handler).Nodup ∧
      (Admits step KeepsNumbers (start kernel) events →
        ∀ call ∈ service.calls, call.ec.failed = false → call.Own service.kernel service.registered) ∧
      (service.Quiescent →
        ((service.receivers ≠ [] → service.pending ≠ []) ↔ Admits step FindsNothing (start kernel) events)) ∧
      (Admits step FindsNothing (start kernel) events → service.Quiescent → service.raised = false →
        ∀ receiver ∈ service.receivers, service.kernel.Running receiver.first ∧
          (Admits step KeepsNumbers (start kernel) events →
            service.registered[receiver.second]? = some (service.kernel.current receiver.first))) := by
  have sound := run_invariant Sound.preserved (.start kernel) admits_true reached
  have owned (admitted : Admits step KeepsNumbers (start kernel) events) : service.Owned :=
    (run_invariant Owned.preserved ⟨.start kernel, .start kernel⟩ admitted reached).2
  have covered (admitted : Admits step FindsNothing (start kernel) events) : service.Covered :=
    run_invariant Covered.preserved (.start kernel) admitted reached
  have armed (quiescent : service.Quiescent) : service.armed = service.pending.length := by
    simp [SigchldService.armed, quiescent.1, quiescent.2, Loop.busy]
  refine ⟨?_, ?_, fun quiescent => ⟨fun waits => ?_, fun admitted receives nothing => ?_⟩, fun admitted quiescent calm => ?_⟩
  · -- each handler is used once, as a receiver or by a call
    apply List.nodup_iff_count.mpr
    intro handler
    have once := sound.once handler
    unfold uses results at once
    rw [List.map_append, List.count_append] at once
    split at once <;> omega
  · exact fun admitted call member => (owned admitted).own call (List.mem_append_right _ member)
  · -- where nothing is left to run, an error can only have left a stranded service behind
    apply admits_of_not_doomed (.start kernel) reached
    intro doomed
    unfold Doomed at doomed
    rw [quiescent.1, quiescent.2] at doomed
    obtain ⟨_, member, -⟩ | failed | stranded := doomed
    · exact absurd member List.not_mem_nil
    · cases failed
    · have none := stranded.1
      rw [armed quiescent] at none
      exact waits stranded.2 (List.eq_nil_of_length_eq_zero none)
  · rw [nothing] at armed
    exact receives ((covered admitted).waits (armed quiescent))
  · intro receiver member
    have covered := covered admitted
    have waits : service.armed ≠ 0 := fun idle => absurd (covered.waits idle) (List.ne_nil_of_mem member)
    have ahead : service.receivers = service.ahead := by
      unfold receivers
      rw [quiescent.2]
      rfl
    rw [ahead] at member
    exact ⟨running_of_calm sound covered quiescent calm member,
      fun admitted => (owned admitted).awaited receiver (mem_awaited.mpr ⟨waits, .inr member⟩)⟩

theorem ended_0 : processIsRunning 0 = false := by decide

theorem ended_256 : processIsRunning 256 = false := by decide

/-- The child 7 ends with the status 256 and its handler is called. -/
def endingChild : List SigchldEvent :=
  [.asyncWait 7, .exits 7 ⟨256, ended_256⟩, .deliver, .runPosted 0, .advance, .advance, .advance]

theorem handlers_and_wakeups_endingChild :
    ∃ service, run step (start fun _ => [.running]) endingChild = some service ∧
      service.calls = [⟨0, 256, .clear⟩] ∧ (service.calls.map Call.handler).Nodup ∧
      (Admits step KeepsNumbers (start fun _ => [.running]) endingChild →
        ∀ call ∈ service.calls, call.ec.failed = false → call.Own service.kernel service.registered) ∧
      (service.Quiescent → ((service.receivers ≠ [] → service.pending ≠ []) ↔
        Admits step FindsNothing (start fun _ => [.running]) endingChild)) ∧
      (Admits step FindsNothing (start fun _ => [.running]) endingChild → service.Quiescent → service.raised = false →
        ∀ receiver ∈ service.receivers, service.kernel.Running receiver.first ∧
          (Admits step KeepsNumbers (start fun _ => [.running]) endingChild →
            service.registered[receiver.second]? = some (service.kernel.current receiver.first))) :=
  ⟨_, rfl, rfl, handlers_and_wakeups (fun _ => [.running]) endingChild _ rfl⟩

/-- Someone else reaps the child 7, whose number fork gives to the next child. -/
def reusedNumber : List SigchldEvent :=
  [.asyncWait 7, .exits 7 ⟨256, ended_256⟩, .otherReaper 7, .spawn 7, .exits 7 ⟨0, ended_0⟩, .deliver, .runPosted 0, .advance]

/-- A cancelled wait for the child 7; the wait for the child 8 then gets no wake-up when 8 ends. And
the handler of a child that ended with 256 is told the 0 of the child that got its number. -/
theorem no_wakeup_cancelled :
    (∃ service, run step (start fun _ => [.running])
        [.asyncWait 7, .cancel, .runPosted 0, .advance, .advance, .advance, .asyncWait 8, .exits 8 ⟨0, ended_0⟩, .deliver] =
          some service ∧
      service.Quiescent ∧ service.raised = false ∧ service.receivers = [⟨7, 0⟩, ⟨8, 1⟩] ∧ service.pending = [] ∧
      service.calls = [⟨0, -1, operationAborted⟩] ∧ service.kernel 8 = [.zombie ⟨0, ended_0⟩]) ∧
    ∃ service, run step (start fun _ => [.running]) reusedNumber = some service ∧
      service.calls = [⟨0, 0, .clear⟩] ∧ service.registered = [⟨7, 1⟩] ∧
      service.kernel.process ⟨7, 1⟩ = some (.reaped ⟨256, ended_256⟩) ∧
        service.kernel.process ⟨7, 2⟩ = some (.reaped ⟨0, ended_0⟩) :=
  ⟨⟨_, rfl, by decide, rfl, rfl, rfl, rfl, rfl⟩, ⟨_, rfl, rfl, rfl, rfl, rfl⟩⟩

end SigchldService
end BoostProcess.V1
