import BoostProcess.Library.Transition
import BoostProcess.V2.Posix.LaunchSpec

/-! Launches made one after another through the same launcher object.

The launcher is a mutable object: argv_, argv_buffer_ and fd_whitelist are members
that the next launch finds as the last one left them.
-/

set_option autoImplicit false

namespace BoostProcess.V2.Posix

/-- The loop over the converted arguments: conv_string throws at the first one that
does not convert, and the ones before it have been pushed. -/
def convertAll : List (Except ErrorCode String) → List String × Option ErrorCode
  | [] => ([], none)
  | .error ec :: _ => ([], some ec)
  | .ok value :: rest =>
    let later := convertAll rest
    (value :: later.1, later.2)

/-- `default_launcher::build_argv_`, all three overloads. -/
def buildArgv (executable : Nat) (args : Args) (self : Launcher) :
    Launcher × Except ErrorCode (List (Option Nat)) :=
  match args with
  | .raw argv => (self, .ok argv)
  | .borrowed args =>
    -- argv_ is appended to, not cleared
    let argv := self.argv ++ some executable :: args.map some ++ [none]
    ({ self with argv }, .ok argv)
  | .converted args address =>
    let pushed := convertAll args
    let argvBuffer := self.argvBuffer ++ pushed.1
    let argv := self.argv ++ [some executable]
    match pushed.2 with
    | some ec => ({ self with argv, argvBuffer }, .error ec)
    | none =>
      -- the second loop runs over the whole buffer, not over this launch's strings
      let argv := argv ++ (List.range argvBuffer.length).map (fun index => some (address index)) ++ [none]
      ({ self with argv, argvBuffer }, .ok argv)

/-- `operator()` as a whole. An exception of build_argv_ passes through. -/
def Kind.call (kind : Kind) (launch : Launch) (self : Launcher) : Launcher × Except ErrorCode Returned :=
  let built := buildArgv launch.executable launch.args self
  match built.2 with
  -- what was pushed before conv_string threw stays in the launcher
  | .error ec => (built.1, .error ec)
  | .ok argv =>
    let returned := kind.launch launch argv built.1
    (returned.1, .ok returned.2)

/-- One more launch through the same object. -/
def Kind.step (kind : Kind) (self : Launcher) (launch : Launch) : Option Launcher :=
  some (kind.call launch self).1

/-- `bound_launcher`: a launcher with the initializers to be prepended. -/
structure BoundLauncher where
  launcher : Launcher
  init : List Initializer

/-- `bound_launcher::operator()` forwards to the stored launcher. -/
def BoundLauncher.call (kind : Kind) (launch : Launch) (self : BoundLauncher) :
    BoundLauncher × Except ErrorCode Returned :=
  let called := kind.call { launch with inits := self.init ++ launch.inits } self.launcher
  ({ self with launcher := called.1 }, called.2)

def BoundLauncher.step (kind : Kind) (self : BoundLauncher) (launch : Launch) : Option BoundLauncher :=
  some (self.call kind launch).1

/-- Launches through a bound launcher are launches through its launcher. -/
theorem BoundLauncher.run_step {kind : Kind} {self final : BoundLauncher} {launches : List Launch}
    (reached : Transition.run (BoundLauncher.step kind) self launches = some final) :
    final.init = self.init ∧
      Transition.run kind.step self.launcher
        (launches.map fun launch => { launch with inits := self.init ++ launch.inits }) = some final.launcher := by
  induction launches generalizing self with
  | nil =>
    cases reached
    exact ⟨rfl, rfl⟩
  | cons launch rest ih =>
    obtain ⟨next, taken, reached⟩ := Transition.run_cons.mp reached
    cases taken
    exact ih reached

/-! ## What a launch leaves in the launcher -/

/-- Behind build_argv_ the argv is only passed on. -/
structure Keeps (argv : List (Option Nat)) (before : Launcher) (returned : Launcher × Returned) : Prop where
  member : returned.1.argv = before.argv
  buffer : returned.1.argvBuffer = before.argvBuffer
  child : ∀ child ∈ returned.2.child, child.argv = argv

section
variable (launch : Launch) (argv : List (Option Nat)) (self : Launcher)

theorem keeps_childless {self after : Launcher} {ec : ErrorCode} {log : List Event} (argv : List (Option Nat))
    (same : after.argv = self.argv) (sameBuffer : after.argvBuffer = self.argvBuffer) :
    Keeps argv self (after, { ec, log }) :=
  ⟨same, sameBuffer, fun _ impossible => nomatch impossible⟩

theorem keeps_child {self after : Launcher} {returned : Returned} {child : ChildRun} (argv : List (Option Nat))
    (same : after.argv = self.argv) (sameBuffer : after.argvBuffer = self.argvBuffer)
    (ran : returned.child = some child) (passed : child.argv = argv) : Keeps argv self (after, returned) := by
  refine ⟨same, sameBuffer, fun other member => ?_⟩
  rw [ran] at member
  cases member
  exact passed

theorem DefaultLauncher.awaitExec_child (pg : PipeGuard) (pid : Int) (ec : ErrorCode) (errno : Int)
    (child : ChildRun) : (awaitExec launch pg pid ec errno child).child = some child := by
  unfold awaitExec
  dsimp only
  split <;> rfl

theorem PipeForkLauncher.awaitExec_child (pg pgWait : PipeGuard) (ec : ErrorCode) (errno : Int)
    (child : ChildRun) : (awaitExec launch pg pgWait ec errno child).child = some child := by
  unfold awaitExec
  dsimp only
  split <;> rfl

theorem DefaultLauncher.launch_keeps : Keeps argv self (DefaultLauncher.launch launch argv self) := by
  dsimp only [DefaultLauncher.launch]
  cases launch.os.pipe with
  | error error => exact keeps_childless argv rfl rfl
  | ok pipe =>
    cases launch.os.fcntl with
    | some error => exact keeps_childless argv rfl rfl
    | none =>
      dsimp only
      split
      · exact keeps_childless argv rfl rfl
      · cases launch.os.fork with
        | error error => exact keeps_childless argv rfl rfl
        | ok pid => exact keeps_child argv rfl rfl (awaitExec_child ..) rfl

theorem PipeForkLauncher.launch_keeps : Keeps argv self (PipeForkLauncher.launch launch argv self) := by
  dsimp only [PipeForkLauncher.launch]
  cases launch.os.pipe with
  | error error => exact keeps_childless argv rfl rfl
  | ok pipe =>
    cases launch.os.fcntl with
    | some error => exact keeps_childless argv rfl rfl
    | none =>
      cases launch.os.waitPipe with
      | error error => exact keeps_childless argv rfl rfl
      | ok waitPipe =>
        cases launch.os.waitFcntl with
        | some error => exact keeps_childless argv rfl rfl
        | none =>
          dsimp only
          split
          · exact keeps_childless argv rfl rfl
          · cases launch.os.fork with
            | error error => exact keeps_childless argv rfl rfl
            | ok pid => exact keeps_child argv rfl rfl (awaitExec_child ..) rfl

theorem VforkLauncher.launch_keeps : Keeps argv self (VforkLauncher.launch launch argv self) := by
  dsimp only [VforkLauncher.launch]
  split
  · exact keeps_childless argv rfl rfl
  · cases launch.os.fork with
    | error error => exact keeps_childless argv rfl rfl
    | ok pid =>
      dsimp only
      split
      · exact keeps_child argv rfl rfl rfl rfl
      · exact keeps_child argv rfl rfl rfl rfl

theorem ForkAndForgetLauncher.launch_keeps :
    Keeps argv self (ForkAndForgetLauncher.launch launch argv self) := by
  dsimp only [ForkAndForgetLauncher.launch]
  split
  · exact keeps_childless argv rfl rfl
  · cases launch.os.fork with
    | error error => exact keeps_childless argv rfl rfl
    | ok pid => exact keeps_child argv rfl rfl rfl rfl

theorem Kind.launch_keeps (kind : Kind) : Keeps argv self (kind.launch launch argv self) := by
  cases kind with
  | default => exact DefaultLauncher.launch_keeps launch argv self
  | pipeFork => exact PipeForkLauncher.launch_keeps launch argv self
  | vfork => exact VforkLauncher.launch_keeps launch argv self
  | forkAndForget => exact ForkAndForgetLauncher.launch_keeps launch argv self

end
end BoostProcess.V2.Posix
