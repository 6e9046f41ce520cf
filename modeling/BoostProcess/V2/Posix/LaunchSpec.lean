import BoostProcess.V2.Posix.LaunchPath

/-! One specification for the four launchers: the error_code, the calls of the
hooks, the wait for the child and the closed descriptors, along every path. -/

set_option autoImplicit false

namespace BoostProcess.V2.Posix

section
variable {launch : Launch} {result : ChildResult} {word : Option Int}

theorem pathFromSetup_setupFailed (failed : (onSetup launch.inits launch.errno).ec.failed = true) :
    pathFromSetup launch result word = .setupFailed (onSetup launch.inits launch.errno).ec := by
  simp [pathFromSetup, failed]

theorem pathFromSetup_forkFailed {error : Errno}
    (succeeded : ¬ (onSetup launch.inits launch.errno).ec.failed = true)
    (refused : launch.os.fork = .error error) : pathFromSetup launch result word = .forkFailed error := by
  simp [pathFromSetup, succeeded, refused]

theorem pathFromSetup_forked {pid : Int}
    (succeeded : ¬ (onSetup launch.inits launch.errno).ec.failed = true)
    (forked : launch.os.fork = .ok pid) : pathFromSetup launch result word = .forked pid result word := by
  simp [pathFromSetup, succeeded, forked]

end

namespace Kind

/-- The descriptors of the pipes that a launcher manages to open. -/
def opened (kind : Kind) (os : Os) : List Int :=
  match kind with
  | .default =>
    match os.pipe with
    | .ok pipe => [pipe.read, pipe.write]
    | .error _ => []
  | .pipeFork =>
    match os.pipe, os.fcntl with
    | .ok pipe, none =>
      match os.waitPipe with
      | .ok waitPipe => [pipe.read, pipe.write, waitPipe.read, waitPipe.write]
      | .error _ => [pipe.read, pipe.write]
    | .ok pipe, some _ => [pipe.read, pipe.write]
    | .error _, _ => []
  | .vfork | .forkAndForget => []

/-- The parent takes the launch for a success. -/
def Succeeds (kind : Kind) (launch : Launch) : Path → Prop
  | .forked _ result word => (kind.parentEc launch.os result word).failed = false
  | _ => False

def errors (kind : Kind) (launch : Launch) : Path → List ErrorCode
  | .noPipe _ => []
  | .setupFailed ec => [ec]
  | .forkFailed _ => [.clear]
  | .forked _ result word =>
    if (kind.parentEc launch.os result word).failed then [kind.parentEc launch.os result word] else []

def forkErrors (kind : Kind) : Path → List ErrorCode
  | .forkFailed _ => if kind = .forkAndForget then [.clear, .clear] else [.clear]
  | _ => []

/-- What errno is when a failed child has reported it, in the launchers that do. -/
def reported (kind : Kind) (os : Os) : Int → Int :=
  match kind with
  | .default | .pipeFork => os.write
  | .vfork | .forkAndForget => id

end Kind

structure Spec (kind : Kind) (launch : Launch) (path : Path) (returned : Returned) : Prop where
  ec : returned.ec = kind.ec launch path
  result : returned.child.map ChildRun.result = path.result
  childLog : ∀ child, returned.child = some child →
    child.log = (child.result.execError launch.inits (kind.reported launch.os)).log
  errors : ∀ index < launch.inits.length, errorsOf index returned.log = kind.errors launch path
  forkErrors : ∀ index < launch.inits.length, forkErrorsOf index returned.log = kind.forkErrors path
  successes : ∀ index, .onSuccess index ∈ returned.log → kind.Succeeds launch path
  waits : ∀ pid, path.child = some pid → ¬ kind.Succeeds launch path → kind ≠ .pipeFork →
    .waitpid pid true ∈ returned.log
  ignores : kind = .pipeFork ∨ kind.Succeeds launch path → ∀ pid reaped,
    .waitpid pid reaped ∉ returned.log
  closes : ¬ kind.Succeeds launch path → ∀ fd ∈ kind.opened launch.os, .close fd ∈ returned.log

namespace Spec

variable {kind : Kind} {launch : Launch}

/-- A part of a log that only closes descriptors. -/
def OnlyCloses (log : List Event) : Prop := ∀ event ∈ log, ∃ fd, event = .close fd

theorem onlyCloses_append {first second : List Event} (left : OnlyCloses first)
    (right : OnlyCloses second) : OnlyCloses (first ++ second) := by
  intro event member
  rcases List.mem_append.mp member with member | member
  · exact left event member
  · exact right event member

theorem onlyCloses_destroy (pg : PipeGuard) : OnlyCloses pg.destroy := fun _ member => mem_destroy member

theorem mem_destroy_read {read write : Int} (numbered : Descriptors.IsNumber read) :
    .close read ∈ PipeGuard.destroy ⟨read, write⟩ := by
  have : read ≠ -1 := by
    have := numbered.1
    omega
  simp [PipeGuard.destroy, this]

theorem mem_destroy_write {read write : Int} (numbered : Descriptors.IsNumber write) :
    .close write ∈ PipeGuard.destroy ⟨read, write⟩ := by
  have : write ≠ -1 := by
    have := numbered.1
    omega
  simp [PipeGuard.destroy, this]

theorem errorsOf_onlyCloses {index : Nat} {log : List Event} (only : OnlyCloses log) :
    errorsOf index log = [] := by
  refine toldTo_silent fun event member => ?_
  obtain ⟨fd, rfl⟩ := only event member
  rfl

theorem forkErrorsOf_onlyCloses {index : Nat} {log : List Event} (only : OnlyCloses log) :
    forkErrorsOf index log = [] := by
  refine toldTo_silent fun event member => ?_
  obtain ⟨fd, rfl⟩ := only event member
  rfl

theorem not_mem_onlyCloses {event : Event} {log : List Event} (notClose : ∀ fd, event ≠ .close fd) (only : OnlyCloses log) :
    event ∉ log := by
  intro member
  obtain ⟨fd, same⟩ := only event member
  exact notClose fd same

theorem not_mem_told {event : Event} {ec : ErrorCode} {errno : Int} (notTold : ∀ index ec, event ≠ .onError index ec) :
    event ∉ (onError ec launch.inits errno).log := by
  intro member
  obtain ⟨index, -, same⟩ := mem_onError.mp member
  exact notTold index ec same

/-- After a failure the initializers are told of it, and descriptors are closed. -/
theorem not_mem_failure {event : Event} {ec : ErrorCode} {errno : Int} {closings : List Event}
    (notTold : ∀ index ec, event ≠ .onError index ec) (notClose : ∀ fd, event ≠ .close fd) (only : OnlyCloses closings) :
    event ∉ (onError ec launch.inits errno).log ++ closings := by
  intro member
  cases List.mem_append.mp member with
  | inl told => exact not_mem_told notTold told
  | inr closing => exact not_mem_onlyCloses notClose only closing

theorem not_mem_forkFailure {event : Event} {ec : ErrorCode} {errno : Int} {forkErrors closings : List Event}
    (onlyFork : ∀ event ∈ forkErrors, ∃ index, event = .onForkError index .clear) (only : OnlyCloses closings)
    (notFork : ∀ index ec, event ≠ .onForkError index ec) (notTold : ∀ index ec, event ≠ .onError index ec)
    (notClose : ∀ fd, event ≠ .close fd) : event ∉ forkErrors ++ (onError ec launch.inits errno).log ++ closings := by
  intro member
  rw [List.append_assoc] at member
  cases List.mem_append.mp member with
  | inl told =>
    obtain ⟨index, same⟩ := onlyFork event told
    exact notFork index .clear same
  | inr failed => exact not_mem_failure notTold notClose only failed

theorem not_mem_childFailure {event : Event} {ec : ErrorCode} {errno : Int} {early waited late : List Event}
    (before : OnlyCloses early) (after : OnlyCloses late) (notWaited : event ∉ waited)
    (notTold : ∀ index ec, event ≠ .onError index ec) (notClose : ∀ fd, event ≠ .close fd) :
    event ∉ early ++ (onError ec launch.inits errno).log ++ waited ++ late := by
  simp only [List.mem_append, not_or]
  exact ⟨⟨⟨not_mem_onlyCloses notClose before, not_mem_told notTold⟩, notWaited⟩, not_mem_onlyCloses notClose after⟩

/-- No pipe: the guards close what was opened and nobody is told. -/
theorem ofNoPipe {error : Errno} {log : List Event} (only : OnlyCloses log)
    (closed : ∀ fd ∈ kind.opened launch.os, .close fd ∈ log) :
    Spec kind launch (.noPipe error) { ec := .system error.code, log } where
  ec := rfl
  result := rfl
  childLog _ ran := by cases ran
  errors _ _ := errorsOf_onlyCloses only
  forkErrors _ _ := forkErrorsOf_onlyCloses only
  successes index member := absurd member (not_mem_onlyCloses nofun only)
  waits _ forked := by cases forked
  ignores _ pid reaped := not_mem_onlyCloses nofun only
  closes _ := closed

theorem ofSetupFailed {ec : ErrorCode} {errno : Int} {closings : List Event} (only : OnlyCloses closings)
    (closed : ∀ fd ∈ kind.opened launch.os, .close fd ∈ closings) :
    Spec kind launch (.setupFailed ec) { ec, log := (onError ec launch.inits errno).log ++ closings } where
  ec := rfl
  result := rfl
  childLog _ ran := by cases ran
  errors index present := by
    simp [errorsOf_onError present, errorsOf_onlyCloses only, Kind.errors]
  forkErrors index present := by
    simp [forkErrorsOf_onlyCloses only, Kind.forkErrors]
  successes index member := absurd member (not_mem_failure nofun nofun only)
  waits _ forked := by cases forked
  ignores _ pid reaped := not_mem_failure nofun nofun only
  closes _ fd member := List.mem_append_right _ (closed fd member)

/-- A failed fork: the hooks get the ec that on_setup left clear, and what they
leave in errno is what the caller gets. -/
theorem ofForkFailed {error : Errno} {forkErrors closings : List Event}
    (told : ∀ index < launch.inits.length, forkErrorsOf index forkErrors = kind.forkErrors (.forkFailed error))
    (onlyFork : ∀ event ∈ forkErrors, ∃ index, event = .onForkError index .clear)
    (only : OnlyCloses closings) (closed : ∀ fd ∈ kind.opened launch.os, .close fd ∈ closings) {errno : Int} :
    Spec kind launch (.forkFailed error) {
      ec := .system (kind.forkErrno launch error)
      log := forkErrors ++ (onError .clear launch.inits errno).log ++ closings } where
  ec := rfl
  result := rfl
  childLog _ ran := by cases ran
  errors index present := by
    have silent : errorsOf index forkErrors = [] := by
      refine toldTo_silent fun event member => ?_
      obtain ⟨position, rfl⟩ := onlyFork event member
      rfl
    simp [silent, errorsOf_onError present, errorsOf_onlyCloses only, Kind.errors]
  forkErrors index present := by
    simp [told index present, forkErrorsOf_onlyCloses only]
  successes index member := absurd member (not_mem_forkFailure onlyFork only nofun nofun nofun)
  waits _ forked := by cases forked
  ignores _ pid reaped := not_mem_forkFailure onlyFork only nofun nofun nofun
  closes _ fd member := List.mem_append_right _ (closed fd member)

/-- The parent learned of a failed child. `waited` is what the launcher does about
it between the notification and the end of the guards. -/
theorem ofChildFailed {pid : Int} {result : ChildResult} {word : Option Int} {child : ChildRun}
    {early waited late : List Event} {errno : Int} (ran : child.result = result)
    (told : child.log = (child.result.execError launch.inits (kind.reported launch.os)).log)
    (failed : (kind.parentEc launch.os result word).failed = true)
    (before : OnlyCloses early) (after : OnlyCloses late)
    (closed : ∀ fd ∈ kind.opened launch.os, .close fd ∈ early ∨ .close fd ∈ late)
    (onlyWaits : ∀ event ∈ waited, ∃ reaped, event = .waitpid pid reaped)
    (reaps : kind ≠ .pipeFork → .waitpid pid true ∈ waited) (leaves : kind = .pipeFork → waited = []) :
    Spec kind launch (.forked pid result word) {
      ec := kind.parentEc launch.os result word
      child := some child
      log := early ++ (onError (kind.parentEc launch.os result word) launch.inits errno).log ++ waited ++ late } where
  ec := rfl
  result := congrArg some ran
  childLog _ same := by
    cases same
    exact told
  errors index present := by
    have silent : errorsOf index waited = [] := by
      refine toldTo_silent fun event member => ?_
      obtain ⟨reaped, rfl⟩ := onlyWaits event member
      rfl
    simp [silent, errorsOf_onError present, errorsOf_onlyCloses before, errorsOf_onlyCloses after,
      Kind.errors, failed]
  forkErrors index present := by
    have silent : forkErrorsOf index waited = [] := by
      refine toldTo_silent fun event member => ?_
      obtain ⟨reaped, rfl⟩ := onlyWaits event member
      rfl
    simp [silent, forkErrorsOf_onlyCloses before, forkErrorsOf_onlyCloses after, Kind.forkErrors]
  successes index member := by
    have notWaited : Event.onSuccess index ∉ waited := by
      intro among
      obtain ⟨reaped, impossible⟩ := onlyWaits _ among
      cases impossible
    exact absurd member (not_mem_childFailure before after notWaited nofun nofun)
  waits other forked _ notPipeFork := by
    cases forked
    simp [reaps notPipeFork]
  ignores excused other reaped member := by
    have pipeFork : kind = .pipeFork := by
      rcases excused with same | succeeds
      · exact same
      · simp [Kind.Succeeds, failed] at succeeds
    have notWaited : Event.waitpid other reaped ∉ waited := leaves pipeFork ▸ List.not_mem_nil
    exact not_mem_childFailure before after notWaited nofun nofun member
  closes _ fd member := by
    rcases closed fd member with closed | closed <;> simp [closed]

theorem ofSuccess {pid : Int} {result : ChildResult} {word : Option Int} {child : ChildRun}
    {closings : List Event} {errno : Int} {ec : ErrorCode} (ran : child.result = result)
    (told : child.log = (child.result.execError launch.inits (kind.reported launch.os)).log)
    (same : ec = kind.parentEc launch.os result word) (succeeded : ec.failed = false)
    (only : OnlyCloses closings) :
    Spec kind launch (.forked pid result word) {
      ec
      child := some child
      log := closings ++ (onSuccess launch.inits errno).log } := by
  have succeeds : kind.Succeeds launch (.forked pid result word) := by rw [same] at succeeded; exact succeeded
  have childLog : ∀ other, some child = some other →
      other.log = (other.result.execError launch.inits (kind.reported launch.os)).log := by
    intro other ran
    cases ran
    exact told
  refine { ec := same, result := congrArg some ran, childLog, errors := ?_, forkErrors := ?_, successes := fun _ _ => succeeds,
           waits := fun _ _ refused => absurd succeeds refused, ignores := ?_,
           closes := fun refused => absurd succeeds refused }
  · intro index present
    have silent : errorsOf index (onSuccess launch.inits errno).log = [] := by
      refine toldTo_silent fun event member => ?_
      obtain ⟨position, -, rfl⟩ := mem_onSuccess.mp member
      rfl
    simp [silent, errorsOf_onlyCloses only, Kind.errors, ← same, succeeded]
  · intro index present
    have silent : forkErrorsOf index (onSuccess launch.inits errno).log = [] := by
      refine toldTo_silent fun event member => ?_
      obtain ⟨position, -, rfl⟩ := mem_onSuccess.mp member
      rfl
    simp [silent, forkErrorsOf_onlyCloses only, Kind.forkErrors]
  · intro _ other reaped member
    simp only [List.mem_append, mem_onSuccess] at member
    rcases member with member | ⟨position, -, impossible⟩
    · obtain ⟨fd, impossible⟩ := only _ member
      cases impossible
    · cases impossible

end Spec

/-! ## The four launchers -/

open Spec

theorem onlyFork_of_mem {inits : List Initializer} {errno : Int} :
    ∀ event ∈ (onForkError .clear inits errno).log, ∃ index, event = .onForkError index .clear := by
  intro event member
  obtain ⟨index, -, same⟩ := mem_onForkError.mp member
  exact ⟨index, same⟩

theorem onlyCloses_cons (fd : Int) {log : List Event} (only : OnlyCloses log) :
    OnlyCloses (.close fd :: log) := by
  intro event member
  rcases List.mem_cons.mp member with same | member
  · exact ⟨fd, same⟩
  · exact only event member

theorem onlyCloses_nil : OnlyCloses [] := fun _ impossible => absurd impossible List.not_mem_nil

section
variable (launch : Launch) (argv : List (Option Nat)) (self : Launcher)

theorem DefaultLauncher.awaitExec_spec {pipe : Pipe} (piped : launch.os.pipe = .ok pipe) (pid errno : Int)
    (child : ChildRun) (told : child.log = (child.result.execError launch.inits launch.os.write).log) :
    Spec .default launch (.forked pid child.result (child.result.report pipe.write))
      (awaitExec launch ⟨pipe.read, pipe.write⟩ pid .clear errno child) := by
  have outcome : (readErrorPipe .clear (child.result.report pipe.write) launch.os.reads errno).reported =
      Kind.parentEc .default launch.os child.result (child.result.report pipe.write) :=
    reported_eq (child.result.report pipe.write) launch.os.reads errno
  have early : OnlyCloses [.close pipe.write] := onlyCloses_cons _ onlyCloses_nil
  simp only [awaitExec, outcome]
  split
  · rename_i failed
    refine ofChildFailed rfl told failed early (onlyCloses_destroy _) ?_ (fun _ member => mem_reap _ member)
      (fun _ => reap_reaps _ _ _) (fun impossible => by cases impossible)
    simp [Kind.opened, piped, mem_destroy_read pipe.read_number]
  · rename_i succeeded
    exact ofSuccess rfl told rfl (by simpa using succeeded) (onlyCloses_append early (onlyCloses_destroy _))

theorem DefaultLauncher.launch_spec :
    Spec .default launch (path launch self) (DefaultLauncher.launch launch argv self).2 := by
  dsimp only [DefaultLauncher.launch, path]
  cases piped : launch.os.pipe with
  | error error =>
    apply ofNoPipe (onlyCloses_destroy _)
    simp [Kind.opened, piped]
  | ok pipe =>
    have closed : ∀ fd ∈ Kind.opened .default launch.os,
        Event.close fd ∈ PipeGuard.destroy ⟨pipe.read, pipe.write⟩ := by
      simp [Kind.opened, piped, mem_destroy_read pipe.read_number, mem_destroy_write pipe.write_number]
    cases launch.os.fcntl with
    | some error => exact ofNoPipe (onlyCloses_destroy _) closed
    | none =>
      dsimp only
      -- with its pipe open the launcher runs the hooks, then fork
      by_cases failed : (onSetup launch.inits launch.errno).ec.failed = true
      · rw [pathFromSetup_setupFailed failed, if_pos failed]
        exact ofSetupFailed (onlyCloses_destroy _) closed
      · rw [if_neg failed]
        cases forked : launch.os.fork with
        | error error =>
          rw [pathFromSetup_forkFailed failed forked, onSetup_clear failed]
          apply ofForkFailed _ onlyFork_of_mem (onlyCloses_destroy _) closed
          intro index present
          exact forkErrorsOf_onForkError present .clear _
        | ok pid =>
          rw [pathFromSetup_forked failed forked, onSetup_clear failed]
          exact awaitExec_spec launch piped pid _
            ⟨argv, (launch.setUp self).env, childResult launch pipe self, _⟩ rfl

theorem PipeForkLauncher.awaitExec_spec {pipe waitPipe : Pipe}
    (opened : Kind.opened .pipeFork launch.os = [pipe.read, pipe.write, waitPipe.read, waitPipe.write])
    (pid errno : Int) (child : ChildRun)
    (told : child.log = (child.result.execError launch.inits launch.os.write).log) :
    Spec .pipeFork launch (.forked pid child.result (child.result.report pipe.write))
      (awaitExec launch ⟨pipe.read, pipe.write⟩ ⟨waitPipe.read, waitPipe.write⟩ .clear errno child) := by
  have outcome : (readErrorPipe .clear (child.result.report pipe.write) launch.os.reads errno).reported =
      Kind.parentEc .pipeFork launch.os child.result (child.result.report pipe.write) :=
    reported_eq (child.result.report pipe.write) launch.os.reads errno
  have early : OnlyCloses [.close pipe.write, .close waitPipe.write] :=
    onlyCloses_cons _ (onlyCloses_cons _ onlyCloses_nil)
  have onlyCloses_both (wait own : PipeGuard) : OnlyCloses (wait.destroy ++ own.destroy) :=
    onlyCloses_append (onlyCloses_destroy wait) (onlyCloses_destroy own)
  simp only [awaitExec, outcome]
  split
  · rename_i failed
    -- nothing happens between the notification and the end of the guards
    rw [← List.append_nil ([Event.close pipe.write, .close waitPipe.write] ++ _)]
    refine ofChildFailed rfl told failed early (onlyCloses_both _ _) ?_ (by simp) (by simp) (by simp)
    simp [opened, mem_destroy_read pipe.read_number, mem_destroy_read waitPipe.read_number]
  · rename_i succeeded
    exact ofSuccess rfl told rfl (by simpa using succeeded) (onlyCloses_append early (onlyCloses_both _ _))

theorem PipeForkLauncher.launch_spec :
    Spec .pipeFork launch (path launch self) (PipeForkLauncher.launch launch argv self).2 := by
  dsimp only [PipeForkLauncher.launch, path]
  cases piped : launch.os.pipe with
  | error error =>
    apply ofNoPipe (onlyCloses_destroy _)
    simp [Kind.opened, piped]
  | ok pipe =>
    cases controlled : launch.os.fcntl with
    | some error =>
      apply ofNoPipe (onlyCloses_destroy _)
      simp [Kind.opened, piped, controlled, mem_destroy_read pipe.read_number,
        mem_destroy_write pipe.write_number]
    | none =>
      cases waits : launch.os.waitPipe with
      | error error =>
        apply ofNoPipe (onlyCloses_destroy _)
        simp [Kind.opened, piped, controlled, waits, mem_destroy_read pipe.read_number,
          mem_destroy_write pipe.write_number]
      | ok waitPipe =>
        have opened : Kind.opened .pipeFork launch.os =
            [pipe.read, pipe.write, waitPipe.read, waitPipe.write] := by
          simp [Kind.opened, piped, controlled, waits]
        have only : OnlyCloses (PipeGuard.destroy ⟨waitPipe.read, waitPipe.write⟩ ++
            PipeGuard.destroy ⟨pipe.read, pipe.write⟩) :=
          onlyCloses_append (onlyCloses_destroy _) (onlyCloses_destroy _)
        have closed : ∀ fd ∈ Kind.opened .pipeFork launch.os, Event.close fd ∈
            PipeGuard.destroy ⟨waitPipe.read, waitPipe.write⟩ ++
              PipeGuard.destroy ⟨pipe.read, pipe.write⟩ := by
          simp [opened, mem_destroy_read pipe.read_number, mem_destroy_write pipe.write_number,
            mem_destroy_read waitPipe.read_number, mem_destroy_write waitPipe.write_number]
        cases launch.os.waitFcntl with
        | some error => exact ofNoPipe only closed
        | none =>
          dsimp only
          by_cases failed : (onSetup launch.inits launch.errno).ec.failed = true
          · rw [pathFromSetup_setupFailed failed, if_pos failed]
            exact ofSetupFailed only closed
          · rw [if_neg failed]
            cases forked : launch.os.fork with
            | error error =>
              rw [pathFromSetup_forkFailed failed forked, onSetup_clear failed]
              apply ofForkFailed _ onlyFork_of_mem only closed
              intro index present
              exact forkErrorsOf_onForkError present .clear _
            | ok pid =>
              rw [pathFromSetup_forked failed forked, onSetup_clear failed]
              exact awaitExec_spec launch opened pid _
                ⟨argv, (launch.setUp self).env, childResult launch pipe waitPipe self, _⟩ rfl

theorem VforkLauncher.launch_spec :
    Spec .vfork launch (path launch self) (VforkLauncher.launch launch argv self).2 := by
  have closed : ∀ fd ∈ Kind.opened .vfork launch.os, Event.close fd ∈ ([] : List Event) := by simp [Kind.opened]
  dsimp only [VforkLauncher.launch, path]
  by_cases failed : (onSetup launch.inits launch.errno).ec.failed = true
  · rw [pathFromSetup_setupFailed failed, if_pos failed, ← List.append_nil (onError _ _ _).log]
    exact ofSetupFailed onlyCloses_nil closed
  · rw [if_neg failed]
    cases forked : launch.os.fork with
    | error error =>
      rw [pathFromSetup_forkFailed failed forked, onSetup_clear failed]
      dsimp only
      rw [← List.append_nil ((onForkError _ _ _).log ++ _)]
      apply ofForkFailed _ onlyFork_of_mem onlyCloses_nil closed
      intro index present
      exact forkErrorsOf_onForkError present .clear _
    | ok pid =>
      rw [pathFromSetup_forked failed forked]
      dsimp only
      split
      · rename_i learned
        rw [← List.append_nil ((onError _ _ _).log ++ _)]
        apply ofChildFailed _ _ _ onlyCloses_nil onlyCloses_nil (fun fd opened => .inl (closed fd opened))
          (fun _ member => mem_reap _ member) (fun _ => reap_reaps _ _ _) (fun impossible => by cases impossible)
        · rfl
        · rfl
        · exact learned
      · rename_i succeeded
        apply ofSuccess _ _ rfl _ onlyCloses_nil
        · rfl
        · rfl
        · exact Bool.eq_false_iff.mpr succeeded

theorem ForkAndForgetLauncher.launch_spec :
    Spec .forkAndForget launch (path launch self) (ForkAndForgetLauncher.launch launch argv self).2 := by
  have closed : ∀ fd ∈ Kind.opened .forkAndForget launch.os, Event.close fd ∈ ([] : List Event) := by
    simp [Kind.opened]
  dsimp only [ForkAndForgetLauncher.launch, path]
  by_cases failed : (onSetup launch.inits launch.errno).ec.failed = true
  · rw [pathFromSetup_setupFailed failed, if_pos failed, ← List.append_nil (onError _ _ _).log]
    exact ofSetupFailed onlyCloses_nil closed
  · rw [if_neg failed]
    cases forked : launch.os.fork with
    | error error =>
      rw [pathFromSetup_forkFailed failed forked, onSetup_clear failed]
      dsimp only
      rw [← List.append_nil ((onForkError _ _ _).log ++ _ ++ _)]
      apply ofForkFailed _ _ onlyCloses_nil closed
      · intro index present
        -- everybody is told twice
        rw [forkErrorsOf_append, forkErrorsOf_onForkError present, forkErrorsOf_onForkError present]
        rfl
      · intro event member
        rcases List.mem_append.mp member with member | member
        · exact onlyFork_of_mem event member
        · exact onlyFork_of_mem event member
    | ok pid =>
      rw [pathFromSetup_forked failed forked, onSetup_clear failed]
      apply ofSuccess _ _ rfl rfl onlyCloses_nil
      · rfl
      · rfl

theorem Kind.launch_spec (kind : Kind) : Spec kind launch (kind.path launch self) (kind.launch launch argv self).2 := by
  cases kind with
  | default => exact DefaultLauncher.launch_spec launch argv self
  | pipeFork => exact PipeForkLauncher.launch_spec launch argv self
  | vfork => exact VforkLauncher.launch_spec launch argv self
  | forkAndForget => exact ForkAndForgetLauncher.launch_spec launch argv self

/-- In the child every initializer is told once of the errno that the child ended with, if the
image was not replaced, and of nothing otherwise. -/
theorem Kind.execErrors_told (kind : Kind) {child : ChildRun}
    (ran : (kind.launch launch argv self).2.child = some child) {index : Nat} (present : index < launch.inits.length) :
    execErrorsOf index child.log =
      (child.result.error.map fun _ => ErrorCode.system (kind.reported launch.os child.result.child.errno)).toList := by
  rw [(kind.launch_spec launch argv self).childLog child ran, ChildResult.execError]
  cases child.result.error with
  | none => rfl
  | some _ => exact execErrorsOf_onExecError present _ _

end

end BoostProcess.V2.Posix
