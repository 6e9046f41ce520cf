import BoostProcess.V2.Process.BasicProcess

/-! Stale numbers. `running` and `wait` ask the exit status before they use the number;
signals, terminate and the destructor do not, so what they are used on decides.
-/

set_option autoImplicit false

namespace BoostProcess.V2.Process

open Custody

/-- The child of an object is still there, or its status is collected and stored. -/
def Tracked (sys : Sys) (process : BasicProcess) : Prop :=
  0 < process.handle.pid → Live sys process.handle ∨
    processIsRunning process.exitStatus = false ∧ ∃ child, process.handle.child = some child ∧ sys.Collected child

structure World.Tracking (world : World) : Prop where
  noStale : world.sys.NoStale
  consistent : world.sys.Consistent
  exclusive : Exclusive (world.custody Handle.held)
  tracked : world.All (Tracked world.sys)

section
variable {world next : World} {sys final : Sys} {process kept : BasicProcess} {handle : Handle} {name source : Nat}

theorem Tracked.live (tracked : Tracked sys process) (active : processIsRunning process.exitStatus = true)
    (valid : 0 < process.handle.pid) : Live sys process.handle := by
  rcases tracked valid with live | ⟨stored, -⟩
  · exact live
  · rw [stored] at active
    cases active

/-- What another handle does, as long as it does not collect this child. -/
theorem Tracked.effect {collected : Option ExitStatus} (tracked : Tracked sys process)
    (effect : Effect handle sys final collected)
    (apart : Live sys process.handle → collected ≠ none → process.handle.pid ≠ handle.pid) :
    Tracked final process := by
  intro valid
  cases collected with
  | none =>
    obtain ⟨procs, same⟩ := effect.quietly
    rcases tracked valid with ⟨child, exited, meant, there⟩ | ⟨stored, child, meant, gone⟩
    · exact .inl ⟨child, exited, meant, procs ▸ there⟩
    · exact .inr ⟨stored, child, meant, (same child).mpr gone⟩
  | some status =>
    obtain ⟨-, other, exited, -, procs, -, grown⟩ := effect.collecting
    rcases tracked valid with live | ⟨stored, child, meant, gone⟩
    · exact .inl (live.update (apart live nofun) procs)
    · exact .inr ⟨stored, child, meant, (grown child).mpr (.inr gone)⟩

/-- Two objects whose children are there have different numbers. -/
theorem World.Tracking.apart (tracking : world.Tracking) {other : Nat} {second : BasicProcess}
    (entry : world.objects name = some process) (otherEntry : world.objects other = some second)
    (live : Live world.sys process.handle) (valid : 0 < process.handle.pid) (otherLive : Live world.sys second.handle)
    (distinct : other ≠ name) : second.handle.pid ≠ process.handle.pid := by
  intro same
  obtain ⟨child, exited, meant, there⟩ := live
  obtain ⟨otherChild, otherExited, otherMeant, otherThere⟩ := otherLive
  rw [same, there] at otherThere
  cases otherThere
  apply distinct
  apply tracking.exclusive other name child
  · simp [World.custody, otherEntry, Handle.held, otherMeant, same, valid]
  · simp [World.custody, entry, Handle.held, meant, valid]

/-- An object uses its number while its child is there. -/
theorem World.Tracking.used {collected : Option ExitStatus} (tracking : world.Tracking)
    (entry : world.objects name = some process) (same : kept.handle = process.handle)
    (live : 0 < process.handle.pid → Live world.sys process.handle)
    (effect : Effect process.handle world.sys final collected)
    (stored : collected ≠ none → processIsRunning kept.exitStatus = false) :
    ((world.set name (some kept)).withSys final).Tracking where
  noStale := effect.noStale tracking.noStale fun valid child meant => (live valid).fresh tracking.consistent meant
  consistent := tracking.consistent.effect effect
  exclusive := by
    -- using a number does not change who has it
    have unchanged := World.custody_keep Handle.held entry same
    exact unchanged.symm ▸ tracking.exclusive
  tracked := by
    intro other process' entry'
    change Function.update world.objects name (some kept) other = some process' at entry'
    rw [Function.update_apply] at entry'
    split at entry'
    · cases entry'
      intro valid
      rw [same] at valid ⊢
      -- the child was there: it stays, or its status is stored now
      obtain ⟨child, exited, meant, there⟩ := live valid
      cases collected with
      | none => exact .inl ⟨child, exited, meant, effect.quietly.1 ▸ there⟩
      | some status =>
        obtain ⟨-, other, exited', there', -, -, grown⟩ := effect.collecting
        rw [there] at there'
        cases there'
        exact .inr ⟨stored nofun, child, meant, (grown child).mpr (.inl rfl)⟩
    · rename_i distinct
      apply (tracking.tracked other process' entry').effect effect
      intro otherLive collects
      have valid : 0 < process.handle.pid := by
        cases collected with
        | none => exact absurd rfl collects
        | some status => exact effect.collecting.1
      exact tracking.apart entry entry' (live valid) valid otherLive distinct

theorem World.Tracking.reports {used : Used} (tracking : world.Tracking) (entry : world.objects name = some process)
    (live : 0 < process.handle.pid → Live world.sys process.handle) (reports : used.Reports process world.sys) :
    ((world.set name (some used.process)).withSys used.sys).Tracking := by
  obtain ⟨collected, effect, same⟩ := reports
  apply tracking.used entry _ live effect
  · intro collects
    cases collected with
    | none => exact absurd rfl collects
    | some status =>
      rw [same]
      exact status.ended
  · rw [same]

theorem World.Tracking.unchanged (tracking : world.Tracking) (entry : world.objects name = some process) :
    ((world.set name (some process)).withSys world.sys).Tracking := by
  have same : world.set name (some process) = world := by simp [World.set, ← entry]
  rw [same]
  exact tracking

theorem World.Tracking.polls {used : Used} {ec : ErrorCode} (tracking : world.Tracking)
    (entry : world.objects name = some process) (polls : used.Polls process world.sys ec) :
    ((world.set name (some used.process)).withSys used.sys).Tracking := by
  rcases polls with ⟨-, same, sys⟩ | ⟨⟨empty, -, -⟩, same, sys⟩ | ⟨active, reports⟩
  · rw [same, sys]
    exact tracking.unchanged entry
  · rw [same, sys]
    exact tracking.used entry rfl (fun valid => absurd valid (not_lt.mpr empty)) .refl (fun collects => absurd rfl collects)
  · exact tracking.reports entry ((tracking.tracked name process entry).live active) reports

/-- The kernel acts between the operations and leaves every child that is there in place. -/
theorem World.Tracking.outside (tracking : world.Tracking) (consistent : final.Consistent) (same : final.log = world.sys.log)
    (kept : ∀ handle, Live world.sys handle → Live final handle) : (world.withSys final).Tracking where
  noStale := by
    change final.NoStale
    unfold Sys.NoStale
    rw [same]
    exact tracking.noStale
  consistent := consistent
  exclusive := tracking.exclusive
  tracked := by
    intro name process entry valid
    rcases tracking.tracked name process entry valid with live | ⟨stored, child, meant, gone⟩
    · exact .inl (kept process.handle live)
    · refine .inr ⟨stored, child, meant, ?_⟩
      change final.Collected child
      unfold Sys.Collected
      rw [same]
      exact gone

theorem World.Tracking.congr (tracking : world.Tracking) (sys : next.sys = world.sys) (objects : next.objects = world.objects) :
    next.Tracking := by
  have custody : next.custody Handle.held = world.custody Handle.held := by
    unfold World.custody
    rw [objects]
  refine ⟨sys.symm ▸ tracking.noStale, sys.symm ▸ tracking.consistent, custody.symm ▸ tracking.exclusive, ?_⟩
  intro name process entry
  rw [objects] at entry
  exact sys.symm ▸ tracking.tracked name process entry

theorem World.Tracking.set (tracking : world.Tracking) {value : Option BasicProcess}
    (fresh : ∀ child, value.bind (fun process => process.handle.held) = some child → ¬ Held (world.custody Handle.held) child)
    (tracked : ∀ process, value = some process → Tracked world.sys process) : (world.set name value).Tracking where
  noStale := tracking.noStale
  consistent := tracking.consistent
  exclusive := by
    rw [World.custody_set]
    exact exclusive_update tracking.exclusive fresh
  tracked := tracking.tracked.set tracked

theorem Tracked.released (process : BasicProcess) : Tracked sys process.released := by
  intro valid
  cases valid

theorem World.Tracking.release (tracking : world.Tracking) (process : BasicProcess) :
    (world.set name (some process.released)).Tracking := by
  apply tracking.set
  · intro child held
    cases held
  · intro released same
    cases same
    exact Tracked.released process

theorem World.Tracking.move (tracking : world.Tracking) (entry : world.objects source = some process) :
    ((world.set name (some process)).set source (some process.released)).Tracking where
  noStale := tracking.noStale
  consistent := tracking.consistent
  exclusive := by
    rw [World.custody_move name entry Handle.held_default]
    exact exclusive_transfer tracking.exclusive
  tracked := tracking.tracked.move name entry (Tracked.released process)

theorem Tracked.located (tracked : Tracked sys process) : Located sys process :=
  fun valid => (tracked valid).imp_right And.right

theorem World.Tracking.fresh (tracking : world.Tracking) : ¬ Held (world.custody Handle.held) world.sys.births := by
  intro held
  have bounded := World.held_bounded tracking.consistent
    (fun name process entry => (tracking.tracked name process entry).located) held
  exact Nat.lt_irrefl _ bounded

end

/-! ## Runs -/

/-- The number is used for no child whose status is stored. -/
def BasicProcess.Usable (process : BasicProcess) : Prop :=
  process.handle.pid ≤ 0 ∨ processIsRunning process.exitStatus = true

/-- The condition on an operation: what sends a signal or destroys finds no stored status,
an operation of async_wait still refers to the object that has its handle, and an
object is attached to a child of ours that no other object has. -/
def Careful (world : World) : Op → Prop
  | .terminate name _ _ | .request name _ _ _ | .destroy name _ =>
    ∀ process, world.objects name = some process → process.Usable
  | .cancel name tp _ => tp ≠ ⟨false, false, false⟩ → ∀ process, world.objects name = some process → process.Usable
  | .poll waiter _ _ => ∀ entry, world.waiters waiter = some entry →
    entry.handle.pid ≤ 0 ∨ processIsRunning (world.exitStatus entry.object) = false ∨
      ∃ process, world.objects entry.object = some process ∧ process.handle = entry.handle
  | .attach _ pid => 0 < pid → ∃ child exited, world.sys.procs pid = some ⟨child, true, exited⟩ ∧
    ¬ Held (world.custody Handle.held) child
  | .vanish pid => ∀ proc, world.sys.procs pid = some proc → proc.own = false
  | _ => True

section
variable {world next : World} {name source waiter : Nat}

theorem Tracked.usable {sys : Sys} {process : BasicProcess} (tracked : Tracked sys process) (usable : process.Usable)
    (valid : 0 < process.handle.pid) : Live sys process.handle :=
  usable.elim (fun empty => absurd valid (not_lt.mpr empty)) fun active => tracked.live active valid

theorem World.Tracking.use {function : BasicProcess → Sys → Used} (tracking : world.Tracking)
    (usable : ∀ process, world.objects name = some process → process.Usable)
    (reports : ∀ process sys, (function process sys).Reports process sys)
    (taken : world.use name function = some next) : next.Tracking := by
  obtain ⟨process, entry, rfl⟩ := use_some taken
  exact tracking.reports entry ((tracking.tracked name process entry).usable (usable process entry))
    (reports process world.sys)

theorem World.Tracking.ask {function : BasicProcess → Sys → Used} {ec : ErrorCode} (tracking : world.Tracking)
    (polls : ∀ process sys, (function process sys).Polls process sys ec)
    (taken : world.use name function = some next) : next.Tracking := by
  obtain ⟨process, entry, rfl⟩ := use_some taken
  exact tracking.polls entry (polls process world.sys)

theorem attach_tracking {pid : Int} (tracking : world.Tracking) (careful : Careful world (.attach name pid))
    (taken : step world (.attach name pid) = some next) : next.Tracking := by
  obtain ⟨-, rfl⟩ := create_some taken
  apply tracking.set
  · intro child held
    obtain ⟨valid, meant⟩ := Handle.held_some.mp held
    obtain ⟨other, exited, there, fresh⟩ := careful valid
    have same : (world.sys.handleFor pid).child = some other := by simp [Sys.handleFor, there]
    rw [same] at meant
    cases meant
    exact fresh
  · intro process same valid
    cases same
    obtain ⟨child, exited, there, -⟩ := careful valid
    exact .inl ⟨child, exited, by simp [Sys.handleFor, there], there⟩

theorem launch_tracking {pid : Int} {opened : Bool} (tracking : world.Tracking)
    (taken : step world (.launch name pid opened) = some next) : next.Tracking := by
  obtain ⟨free, outcome⟩ := launch_some taken
  have spawned : (world.withSys (world.sys.spawn pid true)).Tracking :=
    tracking.outside (tracking.consistent.spawn true) rfl fun _ live => live.spawn free true
  have forked : (world.forked pid).Tracking := spawned.congr rfl rfl
  rcases outcome with ⟨-, -, rfl⟩ | ⟨-, rfl⟩
  · apply forked.set
    · intro child held
      obtain ⟨-, same⟩ := Handle.held_some.mp held
      cases same
      exact tracking.fresh
    · intro process same valid
      cases same
      exact .inl ⟨world.sys.births, none, rfl, by simp [World.forked, Sys.spawn]⟩
  · exact forked

theorem destroy_tracking {answer : Answer} (tracking : world.Tracking) (careful : Careful world (.destroy name answer))
    (taken : step world (.destroy name answer) = some next) : next.Tracking := by
  obtain ⟨process, entry, rfl⟩ := destroy_some taken
  have live := (tracking.tracked name process entry).usable (careful process entry)
  obtain ⟨collected, effect⟩ := terminateIfRunning_effect process.handle world.sys answer
  -- as if the status were stored before the object goes
  have same : BasicProcess.handle { process with exitStatus := 0 } = process.handle := rfl
  have used := tracking.used entry same live effect fun _ => rfl
  have gone : ((((world.set name (some { process with exitStatus := 0 })).withSys
      (process.handle.terminateIfRunning world.sys answer))).set name none).Tracking := used.set nofun nofun
  rw [World.withSys_set, World.set_set] at gone
  exact gone.congr rfl rfl

theorem poll_tracking {blocking : Bool} {answer : Answer} (tracking : world.Tracking)
    (careful : Careful world (.poll waiter blocking answer)) (taken : step world (.poll waiter blocking answer) = some next) :
    next.Tracking := by
  obtain ⟨entry, found, rfl⟩ := Option.map_eq_some_iff.mp taken
  rcases poll_cases entry blocking answer with same | ⟨active, valid, final, collected, effect, same⟩
  · rw [same]
    exact tracking
  · rw [same]
    rcases careful entry found with empty | stored | ⟨process, object, handle⟩
    · exact absurd valid (not_lt.mpr empty)
    · rw [stored] at active
      cases active
    · have running : processIsRunning process.exitStatus = true := by
        simpa [World.exitStatus, object] using active
      rw [← handle] at effect
      rw [object]
      have reports : Used.Reports
          ⟨{ process with exitStatus := (collected.map ExitStatus.status).getD process.exitStatus }, final, .clear, false⟩
          process world.sys := ⟨collected, effect, rfl⟩
      exact tracking.reports object ((tracking.tracked _ process object).live running) reports

theorem step_tracking : Transition.Preserves step Careful World.Tracking := by
  intro world op next tracking careful taken
  cases op with
  | construct name =>
    obtain ⟨-, rfl⟩ := create_some taken
    exact tracking.release {}
  | attach name pid => exact attach_tracking tracking careful taken
  | launch name pid opened => exact launch_tracking tracking taken
  | running name ec => exact tracking.ask (fun _ _ => running_polls ec) taken
  | wait name ec answer => exact tracking.ask (fun _ _ => wait_polls ec answer) taken
  | terminate name ec answer => exact tracking.use careful (fun _ _ => terminate_used ec answer) taken
  | request name request ec answer => exact tracking.use careful (fun _ _ => request_used request ec answer) taken
  | cancel name tp answer =>
    by_cases nothing : tp = ⟨false, false, false⟩
    · rw [nothing] at taken
      obtain ⟨process, entry, rfl⟩ := Option.map_eq_some_iff.mp taken
      exact tracking.unchanged entry
    · exact tracking.use (careful nothing) (fun _ _ => cancel_used tp answer) taken
  | moveConstruct name source =>
    obtain ⟨-, lhs, entry, rfl⟩ := moveConstruct_some taken
    exact tracking.move entry
  | moveAssign name source =>
    obtain ⟨lhs, entry, rfl⟩ := moveAssign_some taken
    exact tracking.move entry
  | detach name target =>
    obtain ⟨process, -, rfl⟩ := detach_some taken
    have released : (world.set name (some process.released)).Tracking := tracking.release process
    exact released.congr rfl rfl
  | moveHandle target source =>
    obtain ⟨_, -, taken⟩ := Option.bind_eq_some_iff.mp taken
    cases taken
    exact tracking.congr rfl rfl
  | dropHandle name =>
    obtain ⟨_, -, rfl⟩ := Option.map_eq_some_iff.mp taken
    exact tracking.congr rfl rfl
  | destroy name answer => exact destroy_tracking tracking careful taken
  | asyncWait name waiter =>
    obtain ⟨waiters, rfl⟩ := asyncWait_some taken
    exact tracking.congr rfl rfl
  | poll waiter blocking answer => exact poll_tracking tracking careful taken
  | complete waiter =>
    obtain ⟨_, -, rfl⟩ := Option.map_eq_some_iff.mp taken
    exact tracking.congr rfl rfl
  | exit pid status =>
    obtain ⟨child, there, rfl⟩ := exit_some taken
    exact tracking.outside (tracking.consistent.ended there status) rfl fun _ live => live.ended there status
  | appear pid own =>
    obtain ⟨free, rfl⟩ := appear_some taken
    exact tracking.outside (tracking.consistent.spawn own) rfl fun _ live => live.spawn free own
  | vanish pid =>
    obtain ⟨_, -, rfl⟩ := Option.map_eq_some_iff.mp taken
    exact tracking.outside (tracking.consistent.remove pid) rfl fun _ live => live.remove careful

end

theorem World.Initial.tracking {world : World} (initial : world.Initial) : world.Tracking where
  noStale := by simp [Sys.NoStale, initial.log]
  consistent := initial.consistent
  exclusive first second child held := by simp [World.custody, initial.objects] at held
  tracked name process entry := by simp [initial.objects] at entry

/-- In every run of careful steps no call is made for a child whose status was collected. -/
theorem no_stale_pid (world final : World) (ops : List Op) (initial : world.Initial)
    (admitted : Transition.Admits step Careful world ops) (reached : Transition.run step world ops = some final) :
    final.sys.NoStale :=
  (Transition.run_invariant step_tracking initial.tracking admitted reached).noStale

/-- A child that is interrupted, ends and is waited for twice. -/
theorem no_stale_pid_waited : ∃ final,
    Transition.run step World.bare [.launch 0 5 true, .request 0 .interrupt .clear {}, .exit 5 ⟨2, rfl⟩,
      .wait 0 .clear {}, .wait 0 .clear {}] = some final ∧
      final.sys.NoStale ∧ final.sys.log = [.waitpid 5 (some 0) (some (0, 2)), .kill 5 .sigint (some 0) (some 0)] := by
  refine ⟨_, rfl, no_stale_pid World.bare _ [.launch 0 5 true, .request 0 .interrupt .clear {}, .exit 5 ⟨2, rfl⟩,
    .wait 0 .clear {}, .wait 0 .clear {}] World.bare_initial ?_ rfl, rfl⟩
  refine (Transition.admits_cons rfl).mpr ⟨trivial, ?_⟩
  refine (Transition.admits_cons rfl).mpr ⟨?_, ?_⟩
  · intro process entry
    cases entry
    exact .inr rfl
  · refine (Transition.admits_cons rfl).mpr ⟨trivial, ?_⟩
    refine (Transition.admits_cons rfl).mpr ⟨trivial, ?_⟩
    exact (Transition.admits_cons rfl).mpr ⟨trivial, trivial⟩

/-- The destructor of an object that has been waited for kills the child of another
object that got the number; interrupt uses the number as well. -/
theorem not_no_stale_pid :
    (∃ final, Transition.run step World.bare [.launch 0 5 true, .exit 5 ⟨0, rfl⟩, .wait 0 .clear {},
        .launch 1 5 true, .destroy 0 {}] = some final ∧
      ¬ final.sys.NoStale ∧ .kill 5 .sigkill (some 0) (some 1) ∈ final.sys.log) ∧
    ∃ final, Transition.run step World.bare [.launch 0 5 true, .exit 5 ⟨0, rfl⟩, .wait 0 .clear {},
        .request 0 .interrupt .clear {}] = some final ∧ ¬ final.sys.NoStale := by
  refine ⟨⟨_, rfl, ?_, by decide⟩, ⟨_, rfl, ?_⟩⟩
  · intro noStale
    exact (List.pairwise_cons.mp noStale).1 _ (List.mem_of_getLast? rfl) 0 0 rfl rfl
  · intro noStale
    exact (List.pairwise_cons.mp noStale).1 _ (List.mem_of_getLast? rfl) 0 0 rfl rfl

end BoostProcess.V2.Process
