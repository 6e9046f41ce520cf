import BoostProcess.V2.Posix.Bindings
import BoostProcess.V2.Posix.LaunchSpec

/-! Agreement between the child's outcome and the error_code of the parent.

A failed child is conveyed when errno says what failed and the word with errno
reaches the parent; a failed fork when the notified hooks leave errno alone.
-/

set_option autoImplicit false

namespace BoostProcess.V2.Posix

namespace ChildResult

/-- When the child reports, errno is the error of the step that failed. Only an
initializer can return an error that it did not get from errno. -/
def ErrnoTells : ChildResult → Prop
  | .execSetupFailed reply => reply.ec = .system reply.child.errno
  | _ => True

/-- What holds of every child that ran the hooks of some initializers. -/
structure Sound (inits : List Initializer) (result : ChildResult) : Prop where
  failed : ∀ ec, result.error = some ec → ec.failed = true
  tells : ∀ ec, result.error = some ec → (result.ErrnoTells ↔ ec = .system result.child.errno)
  unhooked : inits = [] → result.ErrnoTells

/-- A word in the error pipe is the errno of a child that failed. -/
def Wrote (result : ChildResult) (word : Option Int) : Prop :=
  ∀ value, word = some value → result.error ≠ none ∧ value = result.child.errno

theorem wrote_report (result : ChildResult) (write : Int) : result.Wrote (result.report write) := by
  intro value reported
  unfold report at reported
  split at reported
  · cases reported
  · rename_i failure
    split at reported
    · rw [failure]
      exact ⟨nofun, (Option.some.inj reported).symm⟩
    · cases reported

theorem wrote_none (result : ChildResult) : result.Wrote none := nofun

end ChildResult

theorem closeAllFds_failed {os : Os} {fdWhitelist : List Int} {child : Child}
    (failed : (closeAllFds os fdWhitelist child).1.failed = true) :
    (closeAllFds os fdWhitelist child).1 = .system (closeAllFds os fdWhitelist child).2.errno := by
  unfold closeAllFds at failed ⊢
  cases outcome : os.closeAll with
  | closed => simp [outcome] at failed
  | listed => simp [outcome] at failed
  | walked errno => rfl
  | notOpened error => rfl

theorem setupAndExec_sound (os : Os) (inits : List Initializer) (fdWhitelist : List Int) (child : Child) :
    (setupAndExec os inits fdWhitelist child).Sound inits := by
  refine ⟨fun ec => setupAndExec_error, ?_, ?_⟩
  · intro ec failure
    simp only [setupAndExec] at failure ⊢
    split
    · rename_i failed
      rw [if_pos failed] at failure
      -- the first failing step is a hook, and ErrnoTells is about what it returned
      cases failure
      rfl
    · rename_i passed
      rw [if_neg passed] at failure
      split
      · rename_i failed
        rw [if_pos failed] at failure
        cases failure
        -- close_all_fds and execve fail with errno and nothing else
        exact ⟨fun _ => closeAllFds_failed failed, fun _ => trivial⟩
      · rename_i closed
        rw [if_neg closed] at failure
        cases executed : os.execve with
        | none => simp [executed, ChildResult.error] at failure
        | some error =>
          simp only [executed, ChildResult.error, Option.some.injEq] at failure
          exact ⟨fun _ => failure.symm, fun _ => trivial⟩
  · intro empty
    simp only [empty, setupAndExec, onExecSetup, ErrorCode.failed_clear, Bool.false_eq_true, ↓reduceIte]
    split
    · trivial
    · split <;> trivial

/-- What holds of every path that a launch takes. -/
def Path.Sound (inits : List Initializer) : Path → Prop
  | .setupFailed ec => ec.failed = true
  | .forked _ result word => result.Sound inits ∧ result.Wrote word
  | _ => True

theorem pathFromSetup_sound {launch : Launch} {result : ChildResult} {word : Option Int}
    (sound : result.Sound launch.inits) (wrote : result.Wrote word) :
    (pathFromSetup launch result word).Sound launch.inits := by
  simp only [pathFromSetup]
  split
  · rename_i failed
    exact failed
  · cases launch.os.fork with
    | error error => trivial
    | ok pid => exact ⟨sound, wrote⟩

theorem Kind.path_sound (kind : Kind) (launch : Launch) (self : Launcher) : (kind.path launch self).Sound launch.inits := by
  cases kind with
  | default =>
    simp only [path, DefaultLauncher.path]
    cases launch.os.pipe with
    | error error => trivial
    | ok pipe =>
      cases launch.os.fcntl with
      | some error => trivial
      | none => exact pathFromSetup_sound (setupAndExec_sound ..) (ChildResult.wrote_report _ _)
  | pipeFork =>
    simp only [path, PipeForkLauncher.path]
    cases launch.os.pipe with
    | error error => trivial
    | ok pipe =>
      cases launch.os.fcntl with
      | some error => trivial
      | none =>
        cases launch.os.waitPipe with
        | error error => trivial
        | ok waitPipe =>
          cases launch.os.waitFcntl with
          | some error => trivial
          | none => exact pathFromSetup_sound (setupAndExec_sound ..) (ChildResult.wrote_report _ _)
  | vfork => exact pathFromSetup_sound (setupAndExec_sound ..) (ChildResult.wrote_none _)
  | forkAndForget => exact pathFromSetup_sound (setupAndExec_sound ..) (ChildResult.wrote_none _)

/-! ## Agreement -/

/-- execve replaced the image of the child. -/
def Returned.Replaced (returned : Returned) : Prop :=
  ∃ child, returned.child = some child ∧ child.result.error = none

/-- The errors of the steps that failed, with the read of the launchers that have
an error pipe. -/
def Kind.failures (kind : Kind) (os : Os) : Path → List ErrorCode
  | .noPipe error => [.system error.code]
  | .setupFailed ec => [ec]
  | .forkFailed error => [.system error.code]
  | .forked _ result _ =>
    let reads := if kind = .default ∨ kind = .pipeFork then hardError os.reads else none
    result.error.toList ++ reads.toList.map fun error => .system error.code

/-- The caller's error_code agrees with what became of the child. -/
structure Agrees (kind : Kind) (os : Os) (path : Path) (returned : Returned) : Prop where
  success : returned.ec.failed = false ↔ returned.Replaced
  failure : ¬ returned.Replaced → returned.ec.failed = true ∧ returned.ec ∈ kind.failures os path

section
variable {kind : Kind} {launch : Launch} {returned : Returned}

theorem parentEc_of_replaced {result : ChildResult} {word : Option Int} (wrote : result.Wrote word)
    (replaced : result.error = none) : (kind.parentEc launch.os result word).failed = false := by
  have silent : word = none := by
    cases written : word with
    | none => rfl
    | some value => exact absurd replaced (wrote value written).1
  have read : (if hardError launch.os.reads = none then ErrorCode.system 0 else .clear).failed = false := by
    split <;> rfl
  cases kind with
  | default => simpa [Kind.parentEc, silent] using read
  | pipeFork => simpa [Kind.parentEc, silent] using read
  | vfork => simp [Kind.parentEc, VforkLauncher.sharedEc, replaced]
  | forkAndForget => rfl

end

end BoostProcess.V2.Posix
