import BoostProcess.V1.Posix.SigchldWakeup

/-! sigchld_service: every child that has ended is told once, and the service comes to rest. -/

set_option autoImplicit false

namespace BoostProcess.V1

open BoostProcess.V2 (Errno ErrorCode processIsRunning)
open Transition

namespace SigchldService

variable {service next : SigchldService}

theorem getElem?_of_run {events : List SigchldEvent} (reached : run step service events = some next) {handler : Nat}
    {child : Forked} (registered : service.registered[handler]? = some child) : next.registered[handler]? = some child := by
  induction events generalizing service with
  | nil =>
    cases reached
    exact registered
  | cons event rest ih =>
    obtain ⟨middle, taken, reached⟩ := run_cons.mp reached
    exact ih reached (getElem?_of_step taken registered)

/-! ## No handler is lost -/

/-- Every handler waits or is called. -/
def Served (service : SigchldService) : Prop :=
  ∀ handler < service.registered.length, handler ∈ service.waiting ∨ handler ∈ service.results.map Call.handler

theorem Served.start (kernel : Kernel) : Served (SigchldService.start kernel) :=
  fun _ within => absurd within (Nat.not_lt_zero _)

/-- A new registration is served as well. -/
theorem served_of_step {event : SigchldEvent} (taken : service.step event = some next) {handler : Nat}
    (within : handler < next.registered.length) : handler < service.registered.length ∨
      handler ∈ next.waiting ∨ handler ∈ next.results.map Call.handler := by
  obtain same | ⟨pid, rfl, longer⟩ := registered_of_step taken
  · exact .inl (same ▸ within)
  · rw [longer, List.length_append, List.length_singleton, Nat.lt_succ_iff_lt_or_eq] at within
    cases within with
    | inl old => exact .inl old
    | inr new =>
      rw [new, asyncWait_of_step taken]
      exact .inr (Tells.asyncWait service pid).2

theorem Served.of_step {event : SigchldEvent} (sound : service.Sound) (served : service.Served)
    (taken : service.step event = some next) : next.Served := by
  have tells := tells_of_step sound taken
  intro handler within
  obtain old | new := served_of_step taken within
  · cases served handler old with
    | inl waits => exact tells.waits handler waits
    | inr called =>
      obtain ⟨call, member, rfl⟩ := List.mem_map.mp called
      exact .inr (List.mem_map_of_mem (tells.keeps call member))
  · exact new

/-- No handler is called before its child is gone. -/
structure Timely (service : SigchldService) : Prop where
  forked : ∀ child ∈ service.registered, child.count ≤ (service.kernel child.pid).length
  told : ∀ call ∈ service.results, ∃ child, service.registered[call.handler]? = some child ∧ service.kernel.Gone child

theorem Timely.start (kernel : Kernel) : Timely (SigchldService.start kernel) where
  forked _ member := absurd member List.not_mem_nil
  told _ member := absurd member List.not_mem_nil

theorem Timely.of_step {event : SigchldEvent} (sound : service.Sound) (covered : service.Covered) (owned : service.Owned)
    (timely : service.Timely) (taken : service.step event = some next) : next.Timely := by
  have grows := grows_of_step taken
  constructor
  · intro child member
    obtain same | ⟨pid, -, longer⟩ := registered_of_step taken
    · exact Nat.le_trans (timely.forked child (same ▸ member)) (grows.longer _)
    · rw [longer] at member
      cases List.mem_append.mp member with
      | inl old => exact Nat.le_trans (timely.forked child old) (grows.longer _)
      | inr new => exact List.mem_singleton.mp new ▸ grows.longer pid
  · intro call member
    obtain old | ⟨failed, -⟩ | ⟨pid, child, answers⟩ := (tells_of_step sound taken).told call member
    · obtain ⟨child, registered, gone⟩ := timely.told call old
      have forked := timely.forked child (List.mem_of_getElem? registered)
      exact ⟨child, getElem?_of_step taken registered, grows.gone forked gone⟩
    · rw [covered.proceeds] at failed
      cases failed
    · exact ⟨_, child owned, Kernel.gone_current answers.free⟩

/-- No cancel finds a wait, and no fork gives the number of a receiver to another child. -/
def Orderly (service : SigchldService) (event : SigchldEvent) : Prop := service.FindsNothing event ∧ service.KeepsNumbers event

instance (service : SigchldService) (event : SigchldEvent) : Decidable (service.Orderly event) :=
  inferInstanceAs (Decidable (_ ∧ _))

/-! ## The service comes to rest -/

/-- The steps that the strand of the service takes by itself. -/
def Own : SigchldEvent → Prop
  | .runPosted _ | .advance => True
  | _ => False

end SigchldService

/-- The steps that a piece of work leads to: a pass is two for each receiver, its start and its end. -/
def Task.work (receivers : Nat) : Task → Nat
  | complete _ => 1
  | handleSignal _ => 2 * receivers + 2
  | postHandleSignal _ => 2 * receivers + 3

/-- The steps that all of the work leads to. -/
def Task.works (receivers : Nat) : List Task → Nat
  | [] => 0
  | task :: rest => task.work receivers + works receivers rest

def Loop.work (ahead : Nat) : Loop → Nat
  | idle => 0
  | between _ _ => 2 * ahead + 1
  | calling _ _ _ => 2 * ahead + 2

theorem Task.work_mono {few many : Nat} (le : few ≤ many) (task : Task) : task.work few ≤ task.work many := by
  cases task with
  | complete call => exact Nat.le_refl 1
  | handleSignal ec => exact Nat.add_le_add_right (Nat.mul_le_mul_left 2 le) 2
  | postHandleSignal ec => exact Nat.add_le_add_right (Nat.mul_le_mul_left 2 le) 3

namespace Task

theorem works_mono {few many : Nat} (le : few ≤ many) (tasks : List Task) : works few tasks ≤ works many tasks := by
  induction tasks with
  | nil => exact Nat.le_refl 0
  | cons task rest ih => exact Nat.add_le_add (task.work_mono le) ih

theorem works_concat (receivers : Nat) (tasks : List Task) (task : Task) :
    works receivers (tasks ++ [task]) = works receivers tasks + task.work receivers := by
  induction tasks with
  | nil => exact Nat.add_comm _ _
  | cons first rest ih =>
    rw [List.cons_append, works, ih, works, Nat.add_assoc]

theorem works_perm {receivers : Nat} {tasks others : List Task} (same : tasks.Perm others) :
    works receivers tasks = works receivers others := by
  induction same with
  | nil => rfl
  | cons task _ ih => exact congrArg (task.work receivers + ·) ih
  | swap first second rest => exact Nat.add_left_comm _ _ _
  | trans _ _ first second => exact first.trans second

end Task

theorem SignalWait.work_completed (wait : SignalWait) (ec : ErrorCode) (receivers : Nat) :
    (wait.completed ec).work receivers ≤ 2 * receivers + 3 := by
  cases wait with
  | bound => exact Nat.le_succ _
  | posting => exact Nat.le_refl _

namespace SigchldService

variable {service next : SigchldService}

/-- The steps up to the rest; each signal that came early leads to one more pass. -/
def work (service : SigchldService) : Nat :=
  Task.works service.receivers.length service.posted + service.queued * (2 * service.receivers.length + 3) +
    service.loop.work service.ahead.length

theorem work_signalWait (wait : SignalWait) (service : SigchldService) : (service.signalWait wait).work ≤ service.work := by
  have receivers := receivers_signalWait wait service
  have completed := wait.work_completed .clear service.receivers.length
  unfold work
  rw [receivers, loop_signalWait, ahead_signalWait]
  unfold signalWait
  split
  · rename_i early
    obtain ⟨queued, same⟩ := Nat.exists_eq_add_of_lt early
    rw [Nat.zero_add] at same
    dsimp only
    rw [same, Nat.add_sub_cancel, Task.works_concat, Nat.add_mul]
    omega
  · exact Nat.le_refl _

theorem work_lt_of_posted (queued : next.queued = service.queued) (receivers : next.receivers = service.receivers)
    (less : Task.works service.receivers.length next.posted + next.loop.work next.ahead.length <
      Task.works service.receivers.length service.posted + service.loop.work service.ahead.length) :
    next.work < service.work := by
  unfold work
  rw [queued, receivers]
  omega

theorem runPosted_work {index : Nat} {task : Task} (posted : service.posted[index]? = some task)
    (ran : SigchldService.runPosted { service with posted := service.posted.eraseIdx index } task = some next) :
    next.work < service.work := by
  have total := @Task.works_perm service.receivers.length _ _ (perm_of_posted posted)
  rw [Task.works] at total
  cases runPosted_ran ran with
  | complete =>
    -- a call leads to nothing more
    apply work_lt_of_posted
    · rfl
    · rfl
    · simp only [Task.work] at total
      dsimp only
      omega
  | postHandleSignal =>
    apply work_lt_of_posted
    · rfl
    · rfl
    · simp only [Task.work] at total
      simp only [Task.works_concat, Task.work]
      omega
  | handleSignal idle =>
    -- an idle loop has passed nobody, so all receivers are ahead
    have receivers : service.receivers = service.ahead := by
      unfold receivers
      rw [idle]
      rfl
    apply work_lt_of_posted
    · rfl
    · exact receivers.symm
    · simp only [Task.work, receivers] at total
      simp only [receivers, idle, Loop.work]
      omega

/-- The loop goes on, and no receiver is added. -/
theorem work_lt_of_loop (posted : next.posted = service.posted) (queued : next.queued = service.queued)
    (fewer : next.receivers.length ≤ service.receivers.length)
    (less : next.loop.work next.ahead.length < service.loop.work service.ahead.length) : next.work < service.work := by
  unfold work
  rw [posted, queued]
  have tasks := Task.works_mono fewer service.posted
  have passes : service.queued * (2 * next.receivers.length + 3) ≤ service.queued * (2 * service.receivers.length + 3) :=
    Nat.mul_le_mul_left _ (Nat.add_le_add_right (Nat.mul_le_mul_left 2 fewer) 3)
  omega

theorem advance_work (moved : service.advance = some next) : next.work < service.work := by
  have receivers (loop : Loop) : service.loop = loop → service.receivers = loop.passed ++ service.ahead := by
    rintro rfl
    rfl
  -- a receiver ahead counts for a visit and a return, and the return is left
  have called {ec result : ErrorCode} {visited rest : List Receiver} {receiver : Receiver} (kernel : Kernel) (status : Int)
      (loop : service.loop = .between ec visited) (ahead : service.ahead = receiver :: rest) :
      (SigchldService.call { service with kernel := kernel } ec visited rest receiver status result).work < service.work := by
    apply work_lt_of_loop
    · rfl
    · rfl
    · rw [receivers _ loop, ahead]
      simp [SigchldService.receivers, SigchldService.call, Loop.passed]
    · simp only [loop, ahead, Loop.work, SigchldService.call, List.length_cons]
      omega
  cases advance_advanced moved with
  | returns loop =>
    apply work_lt_of_loop
    · rfl
    · rfl
    · rw [receivers _ loop]
      simp [SigchldService.receivers, Loop.passed]
    · simp [loop, Loop.work]
  | aborts loop ahead failed => exact called service.kernel (-1) loop ahead
  | fails loop ahead success asked => exact called _ (-1) loop ahead
  | changes loop ahead success asked => exact called _ _ loop ahead
  | passes loop ahead success asked =>
    apply work_lt_of_loop
    · rfl
    · rfl
    · rw [receivers _ loop, ahead]
      simp [SigchldService.receivers, Loop.passed]
    · simp only [loop, ahead, Loop.work, List.length_cons]
      omega
  | abandons loop ahead failed =>
    apply work_lt_of_loop
    · rfl
    · rfl
    · rw [receivers _ loop, ahead]
      simp [SigchldService.receivers, Loop.passed]
    · simp [loop, ahead, Loop.work]
  | @finishes ec visited loop ahead success =>
    -- the end of the loop is its last step; waiting again takes an early signal for one more pass
    have less : work { service with loop := .idle, ahead := visited.filter (·.first ≠ 0) } < service.work := by
      apply work_lt_of_loop
      · rfl
      · rfl
      · rw [receivers _ loop, ahead]
        simp [SigchldService.receivers, Loop.passed, List.length_filter_le]
      · simp [loop, ahead, Loop.work]
    split
    · exact less
    · exact Nat.lt_of_le_of_lt (work_signalWait .posting _) less

theorem work_of_step {event : SigchldEvent} (own : Own event) (taken : service.step event = some next) :
    next.work < service.work := by
  cases event with
  | runPosted index =>
    obtain ⟨task, posted, ran⟩ := Option.bind_eq_some_iff.mp taken
    exact runPosted_work posted ran
  | advance => exact advance_work taken
  | _ => cases own

theorem length_le_work {schedule : List SigchldEvent} {final : SigchldService} (own : ∀ event ∈ schedule, Own event)
    (reached : run step service schedule = some final) : schedule.length + final.work ≤ service.work := by
  induction schedule generalizing service with
  | nil =>
    cases reached
    exact Nat.le_of_eq (Nat.zero_add _)
  | cons event rest ih =>
    obtain ⟨next, taken, reached⟩ := run_cons.mp reached
    have less := work_of_step (own event List.mem_cons_self) taken
    have later := ih (fun event member => own event (List.mem_cons_of_mem _ member)) reached
    rw [List.length_cons]
    omega

theorem advance_isSome (busy : service.loop ≠ .idle) : service.advance.isSome := by
  unfold SigchldService.advance
  split
  · contradiction
  · rfl
  · rename_i receiver _ _ _
    split
    · rfl
    · cases service.kernel.waitpid receiver.first with
      | mk kernel result => cases result <;> rfl
  · split <;> rfl

/-- A loop that runs can go on; and if none does, the first piece of work can start. -/
theorem goes_on (restless : ¬ service.Quiescent) : ∃ event, Own event ∧ (service.step event).isSome := by
  by_cases idle : service.loop = .idle
  · have posted : service.posted ≠ [] := fun nothing => restless ⟨nothing, idle⟩
    obtain ⟨task, rest, same⟩ := List.exists_cons_of_ne_nil posted
    refine ⟨.runPosted 0, trivial, ?_⟩
    simp only [step, same, List.getElem?_cons_zero, Option.bind_some]
    cases task with
    | complete call => rfl
    | postHandleSignal ec => rfl
    | handleSignal ec =>
      unfold SigchldService.runPosted
      dsimp only
      rw [if_pos idle]
      rfl
  · exact ⟨.advance, trivial, advance_isSome idle⟩

/-- What every run keeps in which no cancel finds a wait. -/
structure Serves (service : SigchldService) : Prop where
  sound : service.Sound
  covered : service.Covered
  served : service.Served

theorem Serves.start (kernel : Kernel) : (SigchldService.start kernel).Serves := ⟨.start kernel, .start kernel, .start kernel⟩

theorem Serves.preserved : Preserves step FindsNothing Serves := by
  intro service event next serves nothing taken
  constructor
  · exact Sound.preserved service event next serves.sound trivial taken
  · exact Covered.preserved service event next serves.covered nothing taken
  · exact serves.served.of_step serves.sound taken

/-- Where nothing is on its way, the number of a receiver that waits belongs to a child that runs. -/
theorem Serves.running_of_waiting (serves : service.Serves) (quiescent : service.Quiescent) (calm : service.raised = false)
    {handler : Nat} (waits : handler ∈ service.waiting) :
    ∃ receiver ∈ service.awaited, receiver.second = handler ∧ receiver.Known service.registered ∧
      service.kernel.Running receiver.first := by
  unfold waiting at waits
  rw [quiescent.2] at waits
  obtain ⟨receiver, member, rfl⟩ := List.mem_map.mp waits
  have armed : service.armed ≠ 0 := by
    intro idle
    rw [(List.append_eq_nil_iff.mp (serves.covered.waits idle)).2] at member
    exact absurd member List.not_mem_nil
  exact ⟨receiver, mem_awaited.mpr ⟨armed, .inr member⟩, rfl, serves.sound.known receiver member,
    running_of_calm serves.sound serves.covered quiescent calm member⟩

/-- Where nothing is on its way, every handler waits or was called once. -/
theorem Serves.count_of_calm (serves : service.Serves) (quiescent : service.Quiescent) {handler : Nat}
    (within : handler < service.registered.length) (idle : handler ∉ service.waiting) :
    (service.calls.map Call.handler).count handler = 1 := by
  have results : service.results = service.calls := by
    simp [SigchldService.results, quiescent.1]
  have once := serves.sound.once handler
  have some := List.one_le_count_iff.mpr ((serves.served handler within).resolve_left idle)
  unfold uses at once
  rw [results] at once some
  split at once <;> omega

/-- What every orderly run keeps. -/
structure Delivers (service : SigchldService) : Prop where
  serves : service.Serves
  owned : service.Owned
  timely : service.Timely

theorem Delivers.start (kernel : Kernel) : (SigchldService.start kernel).Delivers := ⟨.start kernel, .start kernel, .start kernel⟩

theorem Delivers.preserved : Preserves step Orderly Delivers := by
  intro service event next delivers orderly taken
  obtain ⟨serves, owned, timely⟩ := delivers
  obtain ⟨nothing, keeps⟩ := orderly
  constructor
  · exact Serves.preserved service event next serves nothing taken
  · exact owned.step serves.sound keeps taken
  · exact timely.of_step serves.sound serves.covered owned taken

/-- Where nothing is on its way, exactly the handlers of children that do not run any more were called. -/
theorem Delivers.count_of_calm (delivers : service.Delivers) (quiescent : service.Quiescent) (calm : service.raised = false)
    {handler : Nat} {child : Forked} (registered : service.registered[handler]? = some child) :
    (service.calls.map Call.handler).count handler = if service.kernel.process child = some .running then 0 else 1 := by
  obtain ⟨serves, owned, timely⟩ := delivers
  split
  · rename_i running
    apply List.count_eq_zero.mpr
    intro called
    obtain ⟨call, member, rfl⟩ := List.mem_map.mp called
    obtain ⟨other, same, gone⟩ := timely.told call (List.mem_append_right _ member)
    rw [registered] at same
    cases same
    obtain ⟨status, reaped⟩ := gone .running running
    cases reaped
  · rename_i ended
    apply serves.count_of_calm quiescent (List.getElem?_eq_some_iff.mp registered).1
    intro waits
    obtain ⟨receiver, awaited, rfl, -, running⟩ := serves.running_of_waiting quiescent calm waits
    have own := owned.awaited receiver awaited
    rw [registered] at own
    rw [Option.some.inj own, Kernel.process_current] at ended
    exact ended running

/-- In every run in which no cancel finds a wait and no fork gives the number of a receiver to another
child, the service takes at most `work` steps by itself, and can as long as it does not rest. Where it
rests and no SIGCHLD is on its way, the handlers of the children that have ended were called once and no
others. -/
theorem told_once_of_run (kernel : Kernel) (events : List SigchldEvent) (service : SigchldService)
    (admitted : Admits step Orderly (start kernel) events) (reached : run step (start kernel) events = some service) :
    (∀ schedule final, (∀ event ∈ schedule, Own event) → run step service schedule = some final →
        schedule.length + final.work ≤ service.work) ∧
      (¬ service.Quiescent → ∃ event, Own event ∧ (service.step event).isSome) ∧
      (service.Quiescent → service.raised = false → ∀ handler child, service.registered[handler]? = some child →
        (service.calls.map Call.handler).count handler = if service.kernel.process child = some .running then 0 else 1) := by
  have delivers := run_invariant Delivers.preserved (.start kernel) admitted reached
  exact ⟨fun schedule final own => length_le_work own, goes_on,
    fun quiescent calm handler child registered => delivers.count_of_calm quiescent calm registered⟩

/-- Two children end before the one SIGCHLD for both of them is delivered. Behind the calls fork gives
the number of the first to another child. -/
def oneSignal : List SigchldEvent :=
  [.asyncWait 7, .asyncWait 8, .exits 7 ⟨256, ended_256⟩, .exits 8 ⟨256, ended_256⟩, .deliver, .runPosted 0] ++
    List.replicate 5 .advance ++ [.spawn 7]

theorem told_once_of_run_oneSignal : ∃ service, run step (start fun _ => [.running]) oneSignal = some service ∧
    service.kernel.Running 7 ∧ (service.calls.map Call.handler).count 0 = 1 ∧ (service.calls.map Call.handler).count 1 = 1 := by
  have told := (told_once_of_run (fun _ => [.running]) oneSignal _ (by decide) rfl).2.2 (by decide) rfl
  exact ⟨_, rfl, rfl, told 0 ⟨7, 1⟩ rfl, told 1 ⟨8, 1⟩ rfl⟩

end SigchldService
end BoostProcess.V1
