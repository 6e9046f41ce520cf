import BoostProcess.V2.Posix.Agreement

/-! What the launchers owe to their initializers and to the system when a launch
fails: one on_error each, on_fork_error after a failed fork, no on_success, no
zombie and no open pipe.
-/

set_option autoImplicit false

namespace BoostProcess.V2.Posix

/-- A launch that failed and whose failure the parent learned of. -/
def Kind.Learns (kind : Kind) (launch : Launch) : Path → Prop
  | .noPipe _ | .setupFailed _ | .forkFailed _ => True
  | .forked _ result word => (kind.parentEc launch.os result word).failed = true

def Path.forkError : Path → Option ErrorCode
  | .forkFailed error => some (.system error.code)
  | _ => none

structure Handled (kind : Kind) (launch : Launch) (path : Path) (returned : Returned) : Prop where
  nonzero : ∃ ec, path.error = some ec ∧ ec.failed = true
  errors : ∀ index < launch.inits.length, errorsOf index returned.log = path.error.toList
  forkErrors : ∀ index < launch.inits.length, forkErrorsOf index returned.log = path.forkError.toList
  successes : ∀ index, .onSuccess index ∉ returned.log
  waits : ∀ pid, path.child = some pid → .waitpid pid true ∈ returned.log
  closes : ∀ fd ∈ kind.opened launch.os, .close fd ∈ returned.log

/-- The failures that are handled: initializers are not told of a missing pipe, and
are told of a failed fork with the ec of the successful on_setup; the child of a
pipe_fork is not waited for, and an error that errno does not tell is lost. -/
def Kind.Handles (kind : Kind) (launch : Launch) : Path → Prop
  | .noPipe _ | .forkFailed _ => launch.inits = []
  | .setupFailed _ => True
  | .forked _ result _ => kind ≠ .pipeFork ∧ result.ErrnoTells

section
variable {kind : Kind} {launch : Launch} {path : Path} {returned : Returned}

theorem not_succeeds_of_learns (learned : kind.Learns launch path) : ¬ kind.Succeeds launch path := by
  cases path with
  | forked pid result word =>
    intro succeeds
    simp only [Kind.Succeeds] at succeeds
    simp only [Kind.Learns, succeeds] at learned
    cases learned
  | _ => exact id

/-- Initializers that are all told something else than the failure are handled only
if there are none. -/
theorem told_iff {told : Nat → List ErrorCode} {expected actual : List ErrorCode}
    (same : ∀ index < launch.inits.length, told index = actual) (different : actual ≠ expected) :
    (∀ index < launch.inits.length, told index = expected) ↔ launch.inits = [] := by
  constructor
  · intro all
    by_contra nonempty
    have present : 0 < launch.inits.length := List.length_pos_iff.mpr nonempty
    exact different ((same 0 present).symm.trans (all 0 present))
  · intro empty index present
    simp [empty] at present

/-- Of a learned failure only the notifications and the wait can be missing. -/
theorem handled_iff_of_spec (spec : Spec kind launch path returned) (learned : kind.Learns launch path)
    (nonzero : ∃ ec, path.error = some ec ∧ ec.failed = true) :
    Handled kind launch path returned ↔
      (∀ index < launch.inits.length, errorsOf index returned.log = path.error.toList) ∧
      (∀ index < launch.inits.length, forkErrorsOf index returned.log = path.forkError.toList) ∧
      ∀ pid, path.child = some pid → .waitpid pid true ∈ returned.log := by
  have failed := not_succeeds_of_learns learned
  constructor
  · intro handled
    exact ⟨handled.errors, handled.forkErrors, handled.waits⟩
  · rintro ⟨errors, forkErrors, waits⟩
    exact {
      nonzero, errors, forkErrors, waits
      successes := fun index told => failed (spec.successes index told)
      closes := spec.closes failed }

/-- A child whose failure was learned: the notification carries errno. -/
theorem forked_handled_iff {pid : Int} {result : ChildResult} {word : Option Int} {ec : ErrorCode}
    (spec : Spec kind launch (.forked pid result word) returned)
    (learned : kind.Learns launch (.forked pid result word)) (sound : result.Sound launch.inits)
    (failure : result.error = some ec)
    (parentEc : kind.parentEc launch.os result word = .system result.child.errno) :
    Handled kind launch (.forked pid result word) returned ↔ kind ≠ .pipeFork ∧ result.ErrnoTells := by
  have failed : (kind.parentEc launch.os result word).failed = true := learned
  have lost := not_succeeds_of_learns learned
  rw [parentEc] at failed
  rw [handled_iff_of_spec spec learned ⟨ec, failure, sound.failed ec failure⟩]
  constructor
  · rintro ⟨errors, _, waits⟩
    constructor
    · intro pipeFork
      exact spec.ignores (.inl pipeFork) pid true (waits pid rfl)
    · by_cases empty : launch.inits = []
      · exact sound.unhooked empty
      · have present : 0 < launch.inits.length := List.length_pos_iff.mpr empty
        -- the first initializer was told errno, so errno is the error
        have told := (spec.errors 0 present).symm.trans (errors 0 present)
        simp only [Kind.errors, failed, ↓reduceIte, Path.error, failure, Option.toList_some, List.cons.injEq,
          and_true, parentEc] at told
        exact (sound.tells ec failure).mpr told.symm
  · rintro ⟨notPipeFork, tells⟩
    refine ⟨fun index present => ?_, fun index present => ?_, fun other same => ?_⟩
    · rw [spec.errors index present]
      simp [Kind.errors, failed, Path.error, failure, parentEc, (sound.tells ec failure).mp tells]
    · rw [spec.forkErrors index present]
      rfl
    · exact spec.waits other same lost notPipeFork

/-- The parent learns of a child's failure through the child's errno. -/
theorem parentEc_of_learns {pid : Int} {result : ChildResult} {word : Option Int} (wrote : result.Wrote word)
    (learned : kind.Learns launch (.forked pid result word)) :
    kind.parentEc launch.os result word = .system result.child.errno := by
  have failed : (kind.parentEc launch.os result word).failed = true := learned
  have read : (if hardError launch.os.reads = none then ErrorCode.system (word.getD 0) else .clear).failed = true →
      (if hardError launch.os.reads = none then ErrorCode.system (word.getD 0) else .clear) =
        .system result.child.errno := by
    intro failed
    split at failed
    · rename_i delivered
      cases written : word with
      | none => simp [written] at failed
      | some value => rw [if_pos delivered, (wrote value written).2]; rfl
    · cases failed
  cases kind with
  | default => exact read failed
  | pipeFork => exact read failed
  | vfork =>
    simp only [Kind.parentEc, VforkLauncher.sharedEc] at failed ⊢
    split at failed
    · cases failed
    · rfl
  | forkAndForget => cases failed

theorem handled_iff_of_sound (spec : Spec kind launch path returned) (sound : path.Sound launch.inits)
    (learned : kind.Learns launch path) : Handled kind launch path returned ↔ kind.Handles launch path := by
  cases path with
  | noPipe error =>
    -- the guards close the pipe, but no hook is called
    have untold := told_iff spec.errors (List.cons_ne_nil (ErrorCode.system error.code) []).symm
    rw [handled_iff_of_spec spec learned ⟨_, rfl, ErrorCode.failed_errno error⟩]
    constructor
    · intro handled
      exact untold.mp handled.1
    · intro empty
      exact ⟨untold.mpr empty, spec.forkErrors, nofun⟩
  | setupFailed ec =>
    rw [handled_iff_of_spec spec learned ⟨_, rfl, sound⟩]
    exact ⟨fun _ => trivial, fun _ => ⟨spec.errors, spec.forkErrors, nofun⟩⟩
  | forkFailed error =>
    -- the hooks are given the ec of an on_setup that succeeded
    have different : [ErrorCode.clear] ≠ [.system error.code] := by
      intro same
      have positive := error.positive
      have code := ErrorCode.system_inj.mp (List.singleton_inj.mp same)
      omega
    have untold := told_iff spec.errors different
    rw [handled_iff_of_spec spec learned ⟨_, rfl, ErrorCode.failed_errno error⟩]
    constructor
    · intro handled
      exact untold.mp handled.1
    · intro empty
      refine ⟨untold.mpr empty, fun index present => ?_, nofun⟩
      rw [empty] at present
      exact absurd present (Nat.not_lt_zero index)
  | forked pid result word =>
    obtain ⟨sound, wrote⟩ := sound
    cases failure : result.error with
    | none =>
      have failed : (kind.parentEc launch.os result word).failed = true := learned
      rw [parentEc_of_replaced wrote failure] at failed
      cases failed
    | some ec => exact forked_handled_iff spec learned sound failure (parentEc_of_learns wrote learned)

end

/-- A failed launch that the parent learns of is handled exactly in these cases. -/
theorem launch_handled_iff (kind : Kind) (launch : Launch) (argv : List (Option Nat)) (self : Launcher)
    (learned : kind.Learns launch (kind.path launch self)) :
    Handled kind launch (kind.path launch self) (kind.launch launch argv self).2 ↔
      kind.Handles launch (kind.path launch self) :=
  handled_iff_of_sound (kind.launch_spec launch argv self) (kind.path_sound launch self) learned

/-- A vfork whose execve fails: its initializer is told and the child is waited for. -/
theorem launch_handled_iff_vfork :
    let launch := launchOf [bindFd 1 0] (ordinaryOs (some Errno.EBADF))
    Handled .vfork launch (Kind.path .vfork launch { env := 2 })
      (Kind.launch .vfork launch [] { env := 2 }).2 := by
  intro launch
  have learned : Kind.Learns .vfork launch (Kind.path .vfork launch { env := 2 }) := (rfl : true = true)
  exact (launch_handled_iff .vfork launch [] { env := 2 } learned).mpr ⟨by decide, trivial⟩

/-- Its hooks write into a file that is not open. -/
def complaining : Initializer where
  onError _ _ := Errno.EBADF.code
  onForkError _ _ := Errno.EBADF.code

/-- Without a pipe nobody is told, after a failed fork everybody is told of a
success, and the failed child of a pipe_fork stays a zombie. -/
theorem launch_not_handled :
    let unhandled (kind : Kind) (launch : Launch) : Prop := kind.Learns launch (kind.path launch { env := 2 }) ∧
      ¬ Handled kind launch (kind.path launch { env := 2 }) (kind.launch launch [] { env := 2 }).2
    unhandled .default (launchOf [complaining] { ordinaryOs none with pipe := .error Errno.EBADF }) ∧
      unhandled .default (launchOf [complaining] { ordinaryOs none with fork := .error Errno.EAGAIN }) ∧
      unhandled .pipeFork (launchOf [] (ordinaryOs (some Errno.EBADF))) := by
  refine ⟨⟨trivial, fun handled => ?_⟩, ⟨trivial, fun handled => ?_⟩, ⟨(rfl : true = true), fun handled => ?_⟩⟩
  · exact absurd (handled.errors 0 (by decide)) (by decide)
  · exact absurd (handled.errors 0 (by decide)) (by decide)
  · exact absurd (handled.waits 100 rfl) (by decide)

end BoostProcess.V2.Posix
