import BoostProcess.V2.Process.BasicProcess

/-! Who owns a child: one object, from the launch until the child is reaped, killed by
the destructor of its owner or handed out by detach. A move assignment drops what its
target holds, and a launch whose constructor throws has no owner.
-/

set_option autoImplicit false

namespace BoostProcess.V2.Process

open Custody

/-- The holders of numbers: objects, and handles that detach returned. -/
inductive Holder where
  | object (name : Nat)
  | handle (name : Nat)
  deriving DecidableEq

def World.holding {Resource : Type} (part : Handle → Option Resource) (world : World) : Holder → Option Resource
  | .object name => world.custody part name
  | .handle name => (world.handles name).bind part

/-- The child got SIGKILL. -/
def Sys.Killed (sys : Sys) (child : Nat) : Prop :=
  ∃ pid meant, .kill pid .sigkill meant (some child) ∈ sys.log

def World.Accounted (world : World) (child : Nat) : Prop :=
  Held (world.custody Handle.held) child ∨ world.sys.Collected child ∨ child ∈ world.detached ∨
    child ∈ world.orphaned ∧ world.sys.Killed child

structure World.Owned (world : World) : Prop where
  consistent : world.sys.Consistent
  numbers : Exclusive (world.holding Handle.number)
  children : Exclusive (world.custody Handle.held)
  located : world.All (Located world.sys)
  accounted : ∀ child ∈ world.launched, world.Accounted child

section
variable {world next : World} {sys final : Sys} {process kept lhs : BasicProcess} {handle : Handle}
  {name source target waiter child : Nat} {Resource : Type} {part : Handle → Option Resource}

/-! ### Custody by both kinds of holders -/

theorem holding_set (value : Option BasicProcess) :
    (world.set name value).holding part =
      Function.update (world.holding part) (.object name) (value.bind fun process => part process.handle) := by
  funext holder
  cases holder with
  | object other =>
    show (world.set name value).custody part other = _
    rw [World.custody_set]
    by_cases same : other = name
    · subst same
      simp
    · rw [Function.update_of_ne same, Function.update_of_ne (by simpa using same)]
      rfl
  | handle other => exact (Function.update_of_ne (by simp) _ _).symm

theorem holding_handle (value : Option Handle) :
    World.holding part { world with handles := Function.update world.handles name value } =
      Function.update (world.holding part) (.handle name) (value.bind part) := by
  funext holder
  cases holder with
  | object other => exact (Function.update_of_ne (by simp) _ _).symm
  | handle other =>
    show (Function.update world.handles name value other).bind part = _
    by_cases same : other = name
    · subst same
      simp
    · rw [Function.update_of_ne same, Function.update_of_ne (by simpa using same)]
      rfl

theorem holding_keep (part : Handle → Option Resource) (entry : world.objects name = some process)
    (same : kept.handle = process.handle) : (world.set name (some kept)).holding part = world.holding part := by
  have unchanged : (some kept).bind (fun process => part process.handle) = world.holding part (.object name) := by
    simp [World.holding, World.custody, entry, same]
  rw [holding_set, unchanged, Function.update_eq_self]

theorem holding_move (name : Nat) (entry : world.objects source = some lhs) (empty : part {} = none) :
    ((world.set name (some lhs)).set source (some lhs.released)).holding part =
      Custody.transfer (world.holding part) (.object source) (.object name) := by
  have gone : (some lhs.released).bind (fun process => part process.handle) = none := empty
  have held : (some lhs).bind (fun process => part process.handle) = world.holding part (.object source) := by
    simp [World.holding, World.custody, entry]
  rw [holding_set, gone, holding_set, held]
  rfl

theorem holding_detach (target : Nat) (entry : world.objects name = some process) (empty : part {} = none) :
    World.holding part { world.set name (some process.released) with
        handles := Function.update world.handles target (some process.handle) } =
      Custody.transfer (world.holding part) (.object name) (.handle target) := by
  have released : (world.set name (some process.released)).holding part =
      Function.update (world.holding part) (.object name) none := by
    rw [holding_set]
    exact congrArg _ empty
  have held : (some process.handle).bind part = world.holding part (.object name) := by
    simp [World.holding, World.custody, entry]
  have moved := @holding_handle (world.set name (some process.released)) target Resource part (some process.handle)
  rw [released, held, Function.update_comm (by simp)] at moved
  exact moved

theorem holding_moveHandle (target : Nat) (entry : world.handles source = some handle) (empty : part {} = none) :
    World.holding part { world with
        handles := Function.update (Function.update world.handles target (some handle)) source (some {}) } =
      Custody.transfer (world.holding part) (.handle source) (.handle target) := by
  have copied := @holding_handle world target Resource part (some handle)
  have moved := @holding_handle { world with handles := Function.update world.handles target (some handle) } source
    Resource part (some {})
  have held : (some handle).bind part = world.holding part (.handle source) := by
    simp [World.holding, entry]
  rw [copied, held] at moved
  rw [show (some ({} : Handle)).bind part = none from empty] at moved
  exact moved

/-! ### System calls -/

theorem Sys.Collected.mono (collected : sys.Collected child) (grows : ∀ syscall ∈ sys.log, syscall ∈ final.log) :
    final.Collected child := by
  obtain ⟨syscall, member, status, reaped⟩ := collected
  exact ⟨syscall, grows syscall member, status, reaped⟩

theorem World.Accounted.withSys (accounted : world.Accounted child)
    (grows : ∀ syscall ∈ world.sys.log, syscall ∈ final.log) : (world.withSys final).Accounted child := by
  rcases accounted with held | collected | handed | ⟨gone, pid, meant, killed⟩
  · exact .inl held
  · exact .inr (.inl (collected.mono grows))
  · exact .inr (.inr (.inl handed))
  · exact .inr (.inr (.inr ⟨gone, pid, meant, grows _ killed⟩))

/-- Whoever collects the child of an object, it is collected. -/
theorem Located.effect {collected : Option ExitStatus} (located : Located sys process)
    (effect : Effect handle sys final collected) : Located final process := by
  intro valid
  rcases located valid with ⟨child, exited, meant, there⟩ | ⟨child, meant, gone⟩
  · cases collected with
    | none => exact .inl ⟨child, exited, meant, effect.quietly.1 ▸ there⟩
    | some status =>
      obtain ⟨-, other, otherExited, otherThere, procs, -, grown⟩ := effect.collecting
      -- under one number there is one child
      by_cases same : process.handle.pid = handle.pid
      · rw [← same, there] at otherThere
        cases otherThere
        exact .inr ⟨child, meant, (grown child).mpr (.inl rfl)⟩
      · exact .inl (Live.update ⟨child, exited, meant, there⟩ same procs)
  · exact .inr ⟨child, meant, gone.mono fun _ => effect.grows⟩

theorem Waited.grows {outcome : Sys × WaitResult} (waited : Waited handle sys outcome) {syscall : Syscall}
    (member : syscall ∈ sys.log) : syscall ∈ outcome.1.log := by
  cases waited with
  | failed final errno effect => exact effect.grows member
  | running final effect => exact effect.grows member
  | reaped final status effect => exact effect.grows member

/-- The destructor leaves no child behind that runs, unless the kill is refused and the wait
interrupted. -/
theorem terminateIfRunning_ends {answer : Answer} (live : Live sys handle) (meant : handle.child = some child)
    (valid : 0 < handle.pid) (decided : answer.permitted = true ∨ answer.interrupts = 0) :
    (handle.terminateIfRunning sys answer).Collected child ∨ (handle.terminateIfRunning sys answer).Killed child := by
  obtain ⟨here, exited, same, there⟩ := live
  rw [meant] at same
  cases same
  unfold Handle.terminateIfRunning
  rw [if_neg (not_le.mpr valid)]
  cases exited with
  | some status =>
    left
    simp only [Sys.waitNoHang, there]
    exact ⟨_, List.mem_cons_self, status.status, rfl⟩
  | none =>
    simp only [Sys.waitNoHang, there, if_true]
    have stillThere : (sys.call (.waitpid handle.pid handle.child none)).procs handle.pid = some ⟨child, true, none⟩ := there
    -- it runs: the kill reaches it, or the wait lasts until it ends
    cases permitted : answer.permitted with
    | true =>
      right
      -- the kill stays in the log whatever the wait does
      simp only [Sys.kill, stillThere, if_true]
      exact ⟨handle.pid, handle.child, (waitFor_waited _ valid _ _).grows List.mem_cons_self⟩
    | false =>
      left
      have uninterrupted : answer.interrupts = 0 := decided.resolve_left (by simp [permitted])
      simp only [Sys.kill, stillThere, Bool.false_eq_true, if_false, uninterrupted, Nat.lt_irrefl, decide_false]
      have thereStill : ((sys.call (.waitpid handle.pid handle.child none)).call
          (.kill handle.pid .sigkill handle.child none)).procs handle.pid = some ⟨child, true, none⟩ := there
      simp only [Sys.waitFor, thereStill, Bool.false_eq_true, if_false]
      exact ⟨_, List.mem_cons_self, answer.status.status, rfl⟩

/-! ### What keeps the accounts -/

namespace World.Owned

theorem effect {collected : Option ExitStatus} (owned : world.Owned) (effect : Effect handle world.sys final collected) :
    (world.withSys final).Owned where
  consistent := owned.consistent.effect effect
  numbers := owned.numbers
  children := owned.children
  located name process entry := (owned.located name process entry).effect effect
  accounted child launched := (owned.accounted child launched).withSys fun _ => effect.grows

theorem keep (owned : world.Owned) (entry : world.objects name = some process) (same : kept.handle = process.handle) :
    (world.set name (some kept)).Owned where
  consistent := owned.consistent
  numbers := (holding_keep Handle.number entry same).symm ▸ owned.numbers
  children := (custody_keep Handle.held entry same).symm ▸ owned.children
  located := by
    apply owned.located.set
    rintro _ ⟨⟩
    unfold Located
    rw [same]
    exact owned.located name process entry
  accounted child launched := by
    have before := owned.accounted child launched
    unfold World.Accounted at before ⊢
    rw [custody_keep Handle.held entry same]
    exact before

theorem use {function : BasicProcess → Sys → Used} (owned : world.Owned)
    (handle : ∀ process sys, (function process sys).process.handle = process.handle)
    (effect : ∀ process sys, ∃ collected, Effect process.handle sys (function process sys).sys collected)
    (taken : world.use name function = some next) : next.Owned := by
  obtain ⟨process, entry, rfl⟩ := use_some taken
  obtain ⟨collected, calls⟩ := effect process world.sys
  exact (owned.effect calls).keep entry (handle process world.sys)

theorem outside (owned : world.Owned) (consistent : final.Consistent) (same : final.log = world.sys.log)
    (kept : ∀ handle, Live world.sys handle → Live final handle) : (world.withSys final).Owned where
  consistent := consistent
  numbers := owned.numbers
  children := owned.children
  located name process entry valid := by
    rcases owned.located name process entry valid with live | ⟨child, meant, gone⟩
    · exact .inl (kept process.handle live)
    · exact .inr ⟨child, meant, gone.mono fun _ member => same ▸ member⟩
  accounted child launched := (owned.accounted child launched).withSys fun _ member => same ▸ member

theorem fresh (owned : world.Owned) : ¬ Held (world.custody Handle.held) world.sys.births :=
  fun held => Nat.lt_irrefl _ (held_bounded owned.consistent owned.located held)

theorem create (owned : world.Owned) (unused : world.objects name = none)
    (number : ∀ number, process.handle.number = some number → ¬ Held (world.holding Handle.number) number)
    (child : ∀ child, process.handle.held = some child → ¬ Held (world.custody Handle.held) child)
    (located : Located world.sys process) : (world.set name (some process)).Owned where
  consistent := owned.consistent
  numbers := by
    rw [holding_set]
    exact exclusive_update owned.numbers number
  children := by
    rw [custody_set]
    exact exclusive_update owned.children child
  located := by
    apply owned.located.set
    rintro _ ⟨⟩
    exact located
  accounted child launched := by
    have empty : world.custody Handle.held name = none := by simp [World.custody, unused]
    rcases owned.accounted child launched with held | rest
    · left
      rw [custody_set]
      exact held_update empty held
    · exact .inr rest

/-- What a move drops has been collected. -/
theorem move (owned : world.Owned) (entry : world.objects source = some lhs)
    (spare : ∀ child, world.custody Handle.held name = some child → world.sys.Collected child) :
    ((world.set name (some lhs)).set source (some lhs.released)).Owned := by
  have children := custody_move name entry Handle.held_default
  refine ⟨owned.consistent, ?_, ?_, ?_, ?_⟩
  · rw [holding_move name entry Handle.number_default]
    exact exclusive_transfer owned.numbers
  · rw [children]
    exact exclusive_transfer owned.children
  · apply owned.located.move name entry
    intro valid
    cases valid
  · intro child launched
    rcases owned.accounted child launched with held | rest
    · rcases held_after_transfer owned.children held with kept | dropped
      · left
        rw [children]
        exact kept
      · exact .inr (.inl (spare child dropped))
    · exact .inr rest

theorem launch {pid : Int} (owned : world.Owned) (unheld : ¬ Held (world.holding Handle.number) pid)
    (taken : step world (.launch name pid true) = some next) : next.Owned := by
  obtain ⟨free, ⟨-, unused, rfl⟩ | ⟨impossible, -⟩⟩ := launch_some taken
  · have spawned := owned.outside (owned.consistent.spawn true) rfl fun _ live => live.spawn free true
    have number : ∀ number, Handle.number ⟨pid, some world.sys.births⟩ = some number →
        ¬ Held (world.holding Handle.number) number := by
      intro number same
      rw [Handle.number, if_pos free.1] at same
      cases same
      exact unheld
    have child : ∀ child, Handle.held ⟨pid, some world.sys.births⟩ = some child →
        ¬ Held (world.custody Handle.held) child := by
      intro child same
      obtain ⟨-, same⟩ := Handle.held_some.mp same
      cases same
      exact owned.fresh
    have located : Located (world.sys.spawn pid true)
        ⟨⟨pid, some world.sys.births⟩, stillActive, some world.sys.births⟩ := by
      intro _
      exact .inl ⟨world.sys.births, none, rfl, by simp [Sys.spawn]⟩
    have created := spawned.create unused number child located
    refine ⟨created.consistent, created.numbers, created.children, created.located, ?_⟩
    intro other launched
    rcases List.mem_cons.mp launched with rfl | before
    · left
      refine ⟨name, ?_⟩
      simp [custody, World.set, Handle.held, free.1]
    · exact created.accounted other before
  · cases impossible

theorem detach (owned : world.Owned) (taken : step world (.detach name target) = some next) : next.Owned := by
  obtain ⟨process, entry, rfl⟩ := detach_some taken
  have children : (world.set name (some process.released)).custody Handle.held =
      Custody.release (world.custody Handle.held) name := custody_release Handle.held_default
  have numbers := holding_detach target entry Handle.number_default
  refine ⟨owned.consistent, ?_, ?_, ?_, ?_⟩
  · exact numbers.symm ▸ exclusive_transfer owned.numbers
  · exact children.symm ▸ exclusive_release owned.children
  · have released : (world.set name (some process.released)).All (Located world.sys) := by
      apply owned.located.set
      rintro _ ⟨⟩ valid
      cases valid
    exact released
  · intro child launched
    rcases owned.accounted child launched with held | collected | handed | gone
    · rcases held_after_release owned.children held with kept | dropped
      · left
        exact children.symm ▸ kept
      · -- what the object gives up is what detach hands out
        have here : process.handle.held = some child := by simpa [custody, entry] using dropped
        exact .inr (.inr (.inl (List.mem_append_left _ (by simp [here]))))
    · exact .inr (.inl collected)
    · exact .inr (.inr (.inl (List.mem_append_right _ handed)))
    · exact .inr (.inr (.inr gone))

theorem handles {value : Nat → Option Handle} (owned : world.Owned)
    (numbers : Exclusive (World.holding Handle.number { world with handles := value })) :
    World.Owned { world with handles := value } :=
  ⟨owned.consistent, numbers, owned.children, owned.located, owned.accounted⟩

theorem waiters (owned : world.Owned) (value : Nat → Option Waiter) : World.Owned { world with waiters := value } :=
  ⟨owned.consistent, owned.numbers, owned.children, owned.located, owned.accounted⟩

theorem destroy {answer : Answer} (owned : world.Owned) (decided : answer.permitted = true ∨ answer.interrupts = 0)
    (taken : step world (.destroy name answer) = some next) : next.Owned := by
  obtain ⟨process, entry, rfl⟩ := destroy_some taken
  obtain ⟨collected, calls⟩ := terminateIfRunning_effect process.handle world.sys answer
  have called := owned.effect calls
  have children : (world.set name none).custody Handle.held = Custody.release (world.custody Handle.held) name :=
    custody_set none
  have numbers : (world.set name none).holding Handle.number =
      Custody.release (world.holding Handle.number) (.object name) := holding_set none
  refine ⟨called.consistent, ?_, ?_, ?_, ?_⟩
  · exact numbers.symm ▸ exclusive_release owned.numbers
  · exact children.symm ▸ exclusive_release owned.children
  · exact called.located.set nofun
  · intro child launched
    rcases owned.accounted child launched with held | rest
    · rcases held_after_release owned.children held with kept | dropped
      · left
        exact children.symm ▸ kept
      · have here : process.handle.held = some child := by simpa [custody, entry] using dropped
        obtain ⟨valid, meant⟩ := Handle.held_some.mp here
        rcases owned.located name process entry valid with live | ⟨other, same, gone⟩
        · rcases terminateIfRunning_ends live meant valid decided with ended | killed
          · exact .inr (.inl ended)
          · exact .inr (.inr (.inr ⟨List.mem_append_left _ (by simp [here]), killed⟩))
        · rw [meant] at same
          cases same
          exact .inr (.inl (gone.mono fun _ => calls.grows))
    · right
      rcases rest with collected | handed | ⟨gone, pid, meant, killed⟩
      · exact .inl (collected.mono fun _ => calls.grows)
      · exact .inr (.inl handed)
      · exact .inr (.inr ⟨List.mem_append_right _ gone, pid, meant, calls.grows killed⟩)

theorem poll (owned : world.Owned) (entry : Waiter) (blocking : Bool) (answer : Answer) :
    (world.poll entry blocking answer).Owned := by
  rcases poll_cases entry blocking answer with same | ⟨-, -, final, collected, calls, same⟩
  · rw [same]
    exact owned
  · rw [same]
    cases object : world.objects entry.object with
    | none =>
      have unchanged : world.set entry.object none = world := by simp [World.set, ← object]
      rw [Option.map_none, unchanged]
      exact owned.effect calls
    | some process => exact (owned.effect calls).keep object rfl

end World.Owned

theorem Used.Reports.effect {used : Used} (reports : used.Reports process sys) :
    ∃ collected, Effect process.handle sys used.sys collected := by
  obtain ⟨collected, calls, -⟩ := reports
  exact ⟨collected, calls⟩

theorem Used.Polls.effect {used : Used} {ec : ErrorCode} (polls : used.Polls process sys ec) :
    ∃ collected, Effect process.handle sys used.sys collected := by
  rcases polls with ⟨-, -, same⟩ | ⟨-, -, same⟩ | ⟨-, reports⟩
  · exact ⟨none, same ▸ .refl⟩
  · exact ⟨none, same ▸ .refl⟩
  · exact reports.effect

end

/-! ## Runs -/

/-- The condition on an operation: a launch gets as far as its object and no stale number
is in the way; a move assignment drops no child; and the destructor's kill is permitted
or its wait not interrupted. Attaching is no way to own a child twice, and nobody else
waits for ours. -/
def Owning (world : World) : Op → Prop
  | .launch _ pid opened => opened = true ∧ ¬ Held (world.holding Handle.number) pid
  | .moveAssign name _ => ∀ child, world.custody Handle.held name = some child → world.sys.Collected child
  | .destroy _ answer => answer.permitted = true ∨ answer.interrupts = 0
  | .attach .. => False
  | .vanish pid => ∀ proc, world.sys.procs pid = some proc → proc.own = false
  | _ => True

theorem step_owned : Transition.Preserves step Owning World.Owned := by
  intro world op next owned owning taken
  cases op with
  | construct name =>
    obtain ⟨unused, rfl⟩ := create_some taken
    apply owned.create unused
    · intro number same
      cases same
    · intro child same
      cases same
    · intro valid
      cases valid
  | attach name pid => exact owning.elim
  | launch name pid opened =>
    obtain ⟨rfl, unheld⟩ := owning
    exact owned.launch unheld taken
  | running name ec =>
    exact owned.use (fun _ _ => (running_polls ec).handle) (fun _ _ => (running_polls ec).effect) taken
  | wait name ec answer =>
    exact owned.use (fun _ _ => (wait_polls ec answer).handle) (fun _ _ => (wait_polls ec answer).effect) taken
  | terminate name ec answer =>
    exact owned.use (fun _ _ => (terminate_used ec answer).handle) (fun _ _ => (terminate_used ec answer).effect) taken
  | request name request ec answer =>
    exact owned.use (fun _ _ => (request_used request ec answer).handle)
      (fun _ _ => (request_used request ec answer).effect) taken
  | cancel name tp answer =>
    exact owned.use (fun _ _ => (cancel_used tp answer).handle) (fun _ _ => (cancel_used tp answer).effect) taken
  | moveConstruct name source =>
    obtain ⟨unused, lhs, entry, rfl⟩ := moveConstruct_some taken
    apply owned.move entry
    intro child held
    simp [World.custody, unused] at held
  | moveAssign name source =>
    obtain ⟨lhs, entry, rfl⟩ := moveAssign_some taken
    exact owned.move entry owning
  | detach name target => exact owned.detach taken
  | moveHandle target source =>
    obtain ⟨handle, entry, taken⟩ := Option.bind_eq_some_iff.mp taken
    cases taken
    apply owned.handles
    rw [holding_moveHandle target entry Handle.number_default]
    exact exclusive_transfer owned.numbers
  | dropHandle name =>
    obtain ⟨_, -, rfl⟩ := Option.map_eq_some_iff.mp taken
    apply owned.handles
    rw [holding_handle]
    exact exclusive_release owned.numbers
  | destroy name answer => exact owned.destroy owning taken
  | asyncWait name waiter =>
    obtain ⟨waiters, rfl⟩ := asyncWait_some taken
    exact owned.waiters waiters
  | poll waiter blocking answer =>
    obtain ⟨entry, found, rfl⟩ := Option.map_eq_some_iff.mp taken
    exact owned.poll entry blocking answer
  | complete waiter =>
    obtain ⟨_, -, rfl⟩ := Option.map_eq_some_iff.mp taken
    exact owned.waiters _
  | exit pid status =>
    obtain ⟨child, there, rfl⟩ := exit_some taken
    exact owned.outside (owned.consistent.ended there status) rfl fun _ live => live.ended there status
  | appear pid own =>
    obtain ⟨free, rfl⟩ := appear_some taken
    exact owned.outside (owned.consistent.spawn own) rfl fun _ live => live.spawn free own
  | vanish pid =>
    obtain ⟨_, -, rfl⟩ := Option.map_eq_some_iff.mp taken
    exact owned.outside (owned.consistent.remove pid) rfl fun _ live => live.remove owning

theorem World.Initial.owned {world : World} (initial : world.Initial) : world.Owned where
  consistent := initial.consistent
  numbers first second number held := by
    cases first with
    | object name => simp [World.holding, World.custody, initial.objects] at held
    | handle name => simp [World.holding, initial.handles] at held
  children first second child held := by simp [World.custody, initial.objects] at held
  located name process entry := by simp [initial.objects] at entry
  accounted child launched := by simp [initial.launched] at launched

/-- In every run of such steps no two holders have one number, and a child that was launched
has exactly one owner until it is reaped, handed out or killed by the destructor. -/
theorem no_pid_lost (world final : World) (ops : List Op) (initial : world.Initial)
    (admitted : Transition.Admits step Owning world ops) (reached : Transition.run step world ops = some final) :
    Exclusive (final.holding Handle.number) ∧
      ∀ child ∈ final.launched, (∃! name, final.custody Handle.held name = some child) ∨ final.sys.Collected child ∨
        child ∈ final.detached ∨ child ∈ final.orphaned ∧ final.sys.Killed child := by
  have owned := Transition.run_invariant step_owned initial.owned admitted reached
  refine ⟨owned.numbers, fun child launched => ?_⟩
  rcases owned.accounted child launched with ⟨name, held⟩ | rest
  · exact .inl ⟨name, held, fun other also => owned.children other name child also held⟩
  · exact .inr rest

/-- A child that is moved into two objects and dies with the second. -/
theorem no_pid_lost_moved : ∃ final,
    Transition.run step World.bare [.launch 0 5 true, .moveConstruct 1 0, .construct 2, .moveAssign 2 1, .destroy 2 {}] =
      some final ∧ Exclusive (final.holding Handle.number) ∧ final.launched = [0] ∧ final.orphaned = [0] ∧
        final.sys.Killed 0 := by
  refine ⟨_, rfl, (no_pid_lost World.bare _ [.launch 0 5 true, .moveConstruct 1 0, .construct 2, .moveAssign 2 1,
    .destroy 2 {}] World.bare_initial ?_ rfl).1, rfl, rfl, 5, some 0, List.mem_cons_of_mem _ List.mem_cons_self⟩
  refine (Transition.admits_cons rfl).mpr ⟨⟨rfl, ?_⟩, ?_⟩
  · rintro ⟨holder, held⟩
    cases holder with
    | object name => cases held
    | handle name => cases held
  · refine (Transition.admits_cons rfl).mpr ⟨trivial, ?_⟩
    refine (Transition.admits_cons rfl).mpr ⟨trivial, ?_⟩
    refine (Transition.admits_cons rfl).mpr ⟨?_, ?_⟩
    · intro child held
      cases held
    · exact (Transition.admits_cons rfl).mpr ⟨.inl rfl, trivial⟩

/-- A move assignment loses the running child of its target, also when source and target
are one; so does a launch for which no pidfd can be opened. A number that is reused
ends up in two objects. -/
theorem not_no_pid_lost :
    (∃ final, Transition.run step World.bare [.launch 0 5 true, .construct 1, .moveAssign 0 1] = some final ∧
      0 ∈ final.launched ∧ ¬ final.Accounted 0) ∧
    (∃ final, Transition.run step World.bare [.launch 0 5 true, .moveAssign 0 0] = some final ∧
      0 ∈ final.launched ∧ ¬ final.Accounted 0) ∧
    (∃ final, Transition.run step World.bare [.launch 0 5 false] = some final ∧
      0 ∈ final.launched ∧ ¬ final.Accounted 0) ∧
    ∃ final, Transition.run step World.bare [.launch 0 5 true, .exit 5 ⟨0, rfl⟩, .wait 0 .clear {}, .launch 1 5 true] =
      some final ∧ ¬ Exclusive (final.holding Handle.number) := by
  have lost (final : World) (log : final.sys.log = []) (detached : final.detached = []) (orphaned : final.orphaned = [])
      (unheld : ∀ name, final.custody Handle.held name ≠ some 0) : ¬ final.Accounted 0 := by
    rintro (⟨name, held⟩ | ⟨syscall, member, -⟩ | member | ⟨member, -⟩)
    · exact unheld name held
    · simp [log] at member
    · simp [detached] at member
    · simp [orphaned] at member
  refine ⟨⟨_, rfl, List.mem_cons_self, ?_⟩, ⟨_, rfl, List.mem_cons_self, ?_⟩, ⟨_, rfl, List.mem_cons_self, ?_⟩, _, rfl, ?_⟩
  · apply lost _ rfl rfl rfl
    intro name
    match name with
    | 0 => exact nofun
    | 1 => exact nofun
    | _ + 2 => exact nofun
  · apply lost _ rfl rfl rfl
    intro name
    match name with
    | 0 => exact nofun
    | _ + 1 => exact nofun
  · exact lost _ rfl rfl rfl fun _ => nofun
  · intro exclusive
    cases exclusive (.object 0) (.object 1) 5 rfl rfl

end BoostProcess.V2.Process
