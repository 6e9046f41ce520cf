import BoostProcess.V2.Process.BasicProcess

/-! Where an exit status comes from: from waitpid, as long as nobody asks an object
without a process whether it runs, and numbers mean who they are taken for.
-/

set_option autoImplicit false

namespace BoostProcess.V2.Process

/-- The child of ours under the number of a handle is the one it was made for. -/
def Meets (sys : Sys) (handle : Handle) : Prop :=
  0 < handle.pid → ∀ child exited, sys.procs handle.pid = some ⟨child, true, exited⟩ → handle.child = some child

structure Sourced (sys : Sys) (process : BasicProcess) : Prop where
  status : process.exitStatus = stillActive ∨
    ∃ child, process.attached = some child ∧ sys.Reported child process.exitStatus
  attached : 0 < process.handle.pid → process.attached = process.handle.child

def World.Sourced (world : World) : Prop := world.All (Process.Sourced world.sys)

section
variable {world next : World} {sys final : Sys} {process : BasicProcess} {handle : Handle} {name source waiter : Nat}

theorem Sourced.mono (sourced : Sourced sys process) (grows : ∀ syscall ∈ sys.log, syscall ∈ final.log) :
    Sourced final process where
  status := sourced.status.imp_right fun ⟨child, attached, reported⟩ => ⟨child, attached, reported.mono grows⟩
  attached := sourced.attached

theorem Sourced.created (handle : Handle) : Sourced sys ⟨handle, stillActive, handle.held⟩ where
  status := .inl rfl
  attached valid := if_pos valid

theorem Sourced.released (sourced : Sourced sys process) : Sourced sys process.released where
  status := sourced.status
  attached valid := by cases valid

/-- A status that is collected under the number of an object is its own. -/
theorem Sourced.store {status : ExitStatus} (sourced : Sourced sys process)
    (effect : Effect handle sys final (some status)) (meets : Meets sys handle)
    (same : process.attached = handle.child) :
    Sourced final { process with exitStatus := status.status } where
  status := by
    obtain ⟨valid, child, exited, there, -, member, -⟩ := effect.collecting
    exact .inr ⟨child, same.trans (meets valid child exited there), _, member, rfl⟩
  attached := sourced.attached

theorem Sourced.reports {used : Used} (sourced : Sourced sys process) (meets : Meets sys process.handle)
    (reports : used.Reports process sys) : Sourced used.sys used.process := by
  obtain ⟨collected, effect, same⟩ := reports
  rw [same]
  cases collected with
  | none => exact sourced.mono fun _ => effect.grows
  | some status =>
    exact sourced.store effect meets (sourced.attached effect.collecting.1)

theorem Used.Reports.grows {used : Used} (reports : used.Reports process sys) :
    ∀ syscall ∈ sys.log, syscall ∈ used.sys.log := by
  obtain ⟨collected, effect, -⟩ := reports
  exact fun _ => effect.grows

theorem Sourced.polls {used : Used} {ec : ErrorCode} (sourced : Sourced sys process) (occupied : ¬ process.Vacant ec)
    (meets : processIsRunning process.exitStatus = true → Meets sys process.handle)
    (polls : used.Polls process sys ec) : Sourced used.sys used.process := by
  -- only a vacant object stores a local `exit_code{}` that nobody reported
  rcases polls with ⟨-, same, unchanged⟩ | ⟨vacant, -⟩ | ⟨active, reports⟩
  · rw [same, unchanged]
    exact sourced
  · exact absurd vacant occupied
  · exact sourced.reports (meets active) reports

theorem Used.Polls.grows {used : Used} {ec : ErrorCode} (polls : used.Polls process sys ec) :
    ∀ syscall ∈ sys.log, syscall ∈ used.sys.log := by
  rcases polls with ⟨-, -, unchanged⟩ | ⟨-, -, unchanged⟩ | ⟨-, reports⟩
  · rw [unchanged]
    exact fun _ => id
  · rw [unchanged]
    exact fun _ => id
  · exact reports.grows

namespace World.Sourced

theorem withSys (sourced : world.Sourced) (grows : ∀ syscall ∈ world.sys.log, syscall ∈ final.log) :
    (world.withSys final).Sourced :=
  fun name process entry => (sourced name process entry).mono grows

theorem set (sourced : world.Sourced) {value : Option BasicProcess}
    (met : ∀ process, value = some process → Process.Sourced world.sys process) : (world.set name value).Sourced :=
  World.All.set sourced met

theorem store (sourced : world.Sourced) (grows : ∀ syscall ∈ world.sys.log, syscall ∈ final.log)
    (kept : Process.Sourced final process) : ((world.set name (some process)).withSys final).Sourced := by
  have later : ((world.withSys final).set name (some process)).Sourced := by
    apply (sourced.withSys grows).set
    intro stored same
    cases same
    exact kept
  exact later

theorem create (sourced : world.Sourced) (handle : Handle) :
    (world.set name (some ⟨handle, stillActive, handle.held⟩)).Sourced := by
  apply sourced.set
  intro process same
  cases same
  exact Sourced.created handle

theorem release (sourced : world.Sourced) (entry : world.objects name = some process) :
    (world.set name (some process.released)).Sourced := by
  apply sourced.set
  intro released same
  cases same
  exact (sourced name process entry).released

theorem move (sourced : world.Sourced) (entry : world.objects source = some process) :
    ((world.set name (some process)).set source (some process.released)).Sourced :=
  World.All.move sourced name entry (sourced source process entry).released

end World.Sourced

/-- The condition on an operation: `running` and `wait` find a number, a stored status or
an error_code that is set; whatever child waitpid would collect is the one meant; and
an operation of async_wait refers to an object that is still about its child. -/
def Traceable (world : World) : Op → Prop
  | .running name ec | .wait name ec _ => ∀ process, world.objects name = some process →
    ¬ process.Vacant ec ∧ (processIsRunning process.exitStatus = true → Meets world.sys process.handle)
  | .terminate name _ _ => ∀ process, world.objects name = some process → Meets world.sys process.handle
  | .cancel name tp _ => tp.total = false → tp.part = false → ∀ process, world.objects name = some process →
    Meets world.sys process.handle
  | .poll waiter _ _ => ∀ entry, world.waiters waiter = some entry →
    0 < entry.handle.pid → processIsRunning (world.exitStatus entry.object) = true → Meets world.sys entry.handle ∧
      ∀ process, world.objects entry.object = some process → process.attached = entry.handle.child
  | _ => True

theorem World.Sourced.use {function : BasicProcess → Sys → Used} (sourced : world.Sourced)
    (meets : ∀ process, world.objects name = some process → Meets world.sys process.handle)
    (reports : ∀ process sys, (function process sys).Reports process sys)
    (taken : world.use name function = some next) : next.Sourced := by
  obtain ⟨process, entry, rfl⟩ := use_some taken
  exact sourced.store (reports process world.sys).grows
    ((sourced name process entry).reports (meets process entry) (reports process world.sys))

theorem World.Sourced.ask {function : BasicProcess → Sys → Used} {ec : ErrorCode} (sourced : world.Sourced)
    (traceable : ∀ process, world.objects name = some process →
      ¬ process.Vacant ec ∧ (processIsRunning process.exitStatus = true → Meets world.sys process.handle))
    (polls : ∀ process sys, (function process sys).Polls process sys ec)
    (taken : world.use name function = some next) : next.Sourced := by
  obtain ⟨process, entry, rfl⟩ := use_some taken
  obtain ⟨occupied, meets⟩ := traceable process entry
  exact sourced.store (polls process world.sys).grows
    ((sourced name process entry).polls occupied meets (polls process world.sys))

theorem World.Sourced.request {request : Request} {ec : ErrorCode} {answer : Answer} (sourced : world.Sourced)
    (entry : world.objects name = some process) :
    ((world.set name (some process)).withSys (process.request request world.sys ec answer).sys).Sourced := by
  have reports : (process.request request world.sys ec answer).Reports process world.sys := request_used request ec answer
  exact sourced.store reports.grows ((sourced name process entry).mono reports.grows)

theorem cancel_sourced {tp : CancellationType} {answer : Answer} (sourced : world.Sourced)
    (traceable : Traceable world (.cancel name tp answer)) (taken : step world (.cancel name tp answer) = some next) :
    next.Sourced := by
  obtain ⟨process, entry, rfl⟩ := @use_some world next name (fun process sys => process.cancel tp sys answer) taken
  have before := sourced name process entry
  unfold BasicProcess.cancel
  split
  · exact sourced.request entry
  · rename_i total
    split
    · exact sourced.request entry
    · rename_i part
      split
      · have meets := traceable (Bool.not_eq_true _ ▸ total) (Bool.not_eq_true _ ▸ part) process entry
        have reports : (process.terminate world.sys .clear answer).Reports process world.sys := terminate_used .clear answer
        exact sourced.store reports.grows (before.reports meets reports)
      · exact sourced.store (fun _ => id) before

theorem poll_sourced {blocking : Bool} {answer : Answer} (sourced : world.Sourced)
    (traceable : Traceable world (.poll waiter blocking answer))
    (taken : step world (.poll waiter blocking answer) = some next) : next.Sourced := by
  obtain ⟨entry, found, rfl⟩ := Option.map_eq_some_iff.mp taken
  rcases poll_cases entry blocking answer with same | ⟨active, valid, final, collected, effect, same⟩
  · rw [same]
    exact sourced
  · rw [same]
    obtain ⟨meets, about⟩ := traceable entry found valid active
    have grows : ∀ syscall ∈ world.sys.log, syscall ∈ final.log := fun _ => effect.grows
    have later : ((world.withSys final).set entry.object ((world.objects entry.object).map fun process =>
        { process with exitStatus := (collected.map ExitStatus.status).getD process.exitStatus })).Sourced := by
      apply (sourced.withSys grows).set
      intro kept stored
      obtain ⟨process, object, rfl⟩ := Option.map_eq_some_iff.mp stored
      have before := sourced entry.object process object
      cases collected with
      | none => exact before.mono grows
      | some status => exact before.store effect meets (about process object)
    exact later

theorem launch_sourced {pid : Int} {opened : Bool} (sourced : world.Sourced)
    (taken : step world (.launch name pid opened) = some next) : next.Sourced := by
  obtain ⟨-, outcome⟩ := launch_some taken
  -- fork makes no call that the log knows
  have forked : (world.forked pid).Sourced := sourced.withSys fun _ => id
  rcases outcome with ⟨-, -, rfl⟩ | ⟨-, rfl⟩
  · apply forked.set
    intro process same
    cases same
    exact ⟨.inl rfl, fun _ => rfl⟩
  · exact forked

theorem step_sourced : Transition.Preserves step Traceable World.Sourced := by
  intro world op next sourced traceable taken
  cases op with
  | construct name =>
    obtain ⟨-, rfl⟩ := create_some taken
    exact sourced.create {}
  | attach name pid =>
    obtain ⟨-, rfl⟩ := create_some taken
    exact sourced.create (world.sys.handleFor pid)
  | launch name pid opened => exact launch_sourced sourced taken
  | running name ec => exact sourced.ask traceable (fun _ _ => running_polls ec) taken
  | wait name ec answer => exact sourced.ask traceable (fun _ _ => wait_polls ec answer) taken
  | terminate name ec answer => exact sourced.use traceable (fun _ _ => terminate_used ec answer) taken
  | request name request ec answer =>
    obtain ⟨process, entry, rfl⟩ := @use_some world next name (fun process sys => process.request request sys ec answer) taken
    exact sourced.request entry
  | cancel name tp answer => exact cancel_sourced sourced traceable taken
  | moveConstruct name source =>
    obtain ⟨-, lhs, entry, rfl⟩ := moveConstruct_some taken
    exact sourced.move entry
  | moveAssign name source =>
    obtain ⟨lhs, entry, rfl⟩ := moveAssign_some taken
    exact sourced.move entry
  | detach name target =>
    obtain ⟨process, entry, rfl⟩ := detach_some taken
    have released : (world.set name (some process.released)).Sourced := sourced.release entry
    exact released
  | moveHandle target source =>
    obtain ⟨_, -, taken⟩ := Option.bind_eq_some_iff.mp taken
    cases taken
    exact sourced
  | dropHandle name =>
    obtain ⟨_, -, rfl⟩ := Option.map_eq_some_iff.mp taken
    exact sourced
  | destroy name answer =>
    obtain ⟨process, entry, rfl⟩ := destroy_some taken
    obtain ⟨collected, effect⟩ := terminateIfRunning_effect process.handle world.sys answer
    have gone : (world.set name none).Sourced := sourced.set nofun
    exact gone.withSys fun _ => effect.grows
  | asyncWait name waiter =>
    obtain ⟨waiters, rfl⟩ := asyncWait_some taken
    exact sourced
  | poll waiter blocking answer => exact poll_sourced sourced traceable taken
  | complete waiter =>
    obtain ⟨_, -, rfl⟩ := Option.map_eq_some_iff.mp taken
    exact sourced
  | exit pid status =>
    obtain ⟨child, there, rfl⟩ := exit_some taken
    exact sourced.withSys fun _ => id
  | appear pid own =>
    obtain ⟨free, rfl⟩ := appear_some taken
    exact sourced.withSys fun _ => id
  | vanish pid =>
    obtain ⟨_, -, rfl⟩ := Option.map_eq_some_iff.mp taken
    exact sourced.withSys fun _ => id

end

theorem World.Initial.sourced {world : World} (initial : world.Initial) : world.Sourced := by
  intro name process entry
  simp [initial.objects] at entry

/-- Only a status that was reported reads as exit code 0. -/
theorem Sourced.exitCode {sys : Sys} {process : BasicProcess} (sourced : Sourced sys process)
    (zero : process.exitCode = 0) : ∃ child, process.attached = some child ∧ sys.Reported child process.exitStatus := by
  rcases sourced.status with unset | reported
  · unfold BasicProcess.exitCode at zero
    rw [unset] at zero
    cases zero
  · exact reported

/-- In every run of traceable steps an exit status is still_active or was reported of the child
that the object was attached to. -/
theorem exit_status_sourced (world final : World) (ops : List Op) (initial : world.Initial)
    (admitted : Transition.Admits step Traceable world ops) (reached : Transition.run step world ops = some final)
    (name : Nat) (process : BasicProcess) (entry : final.objects name = some process) :
    (process.exitStatus = stillActive ∨
        ∃ child, process.attached = some child ∧ final.sys.Reported child process.exitStatus) ∧
      (process.exitCode = 0 → ∃ child, process.attached = some child ∧ final.sys.Reported child process.exitStatus) :=
  have sourced := Transition.run_invariant step_sourced initial.sourced admitted reached name process entry
  ⟨sourced.status, sourced.exitCode⟩

/-- A child that is terminated, and asked for afterwards through the object it was moved to. -/
theorem exit_status_sourced_terminated : ∃ final process,
    Transition.run step World.bare [.launch 0 5 true, .terminate 0 .clear { status := ⟨9, rfl⟩ }, .moveConstruct 1 0,
      .running 1 .clear] = some final ∧ final.objects 1 = some process ∧
      (process.exitStatus = stillActive ∨
        ∃ child, process.attached = some child ∧ final.sys.Reported child process.exitStatus) ∧
      process.exitStatus = 9 := by
  refine ⟨_, _, rfl, rfl, (exit_status_sourced World.bare _ [.launch 0 5 true,
    .terminate 0 .clear { status := ⟨9, rfl⟩ }, .moveConstruct 1 0, .running 1 .clear] World.bare_initial ?_ rfl
    1 _ rfl).1, rfl⟩
  refine (Transition.admits_cons rfl).mpr ⟨trivial, ?_⟩
  refine (Transition.admits_cons rfl).mpr ⟨?_, ?_⟩
  · intro process entry valid child exited there
    cases entry
    cases there
    rfl
  · refine (Transition.admits_cons rfl).mpr ⟨trivial, ?_⟩
    refine (Transition.admits_cons rfl).mpr ⟨?_, trivial⟩
    intro process entry
    cases entry
    constructor
    · rintro ⟨-, active, -⟩
      cases active
    · intro active
      cases active

/-- An empty object that is asked whether it runs, and a detached one that is waited for,
come to report exit code 0 without a call to waitpid. -/
theorem not_exit_status_sourced :
    (∃ final process, Transition.run step World.bare [.construct 0, .running 0 .clear] = some final ∧
      final.objects 0 = some process ∧ process.attached = none ∧ process.exitStatus = 0 ∧ process.exitCode = 0) ∧
    ∃ final process, Transition.run step World.bare [.launch 0 5 true, .detach 0 0, .wait 0 .clear {}] = some final ∧
      final.objects 0 = some process ∧ process.exitCode = 0 ∧ final.sys.log = [] :=
  ⟨⟨_, _, rfl, rfl, rfl, rfl, rfl⟩, ⟨_, _, rfl, rfl, rfl, rfl⟩⟩

end BoostProcess.V2.Process
