import BoostProcess.V2.Posix.Bindings
import BoostProcess.V2.Posix.Sequence

/-! The descriptors that survive close_all_fds in the n-th child of a
default_launcher.

Only the child's copy of fd_whitelist is reset; in the parent every launch appends
its own numbers to those of the launches before it.
-/

set_option autoImplicit false

namespace BoostProcess.V2.Posix

open Descriptors

/-! ## close_all_fds -/

/-- close_range is misled by a negative entry. -/
def Misled (os : Os) (fdWhitelist : List Int) : Prop :=
  os.closeAll = .closed ∧ ∃ fd ∈ fdWhitelist, fd < 0

instance (os : Os) (fdWhitelist : List Int) : Decidable (Misled os fdWhitelist) :=
  inferInstanceAs (Decidable (_ ∧ _))

theorem mem_sorted {fdWhitelist : List Int} {fd : Int} :
    fd ∈ fdWhitelist.insertionSort (· ≤ ·) ↔ fd ∈ fdWhitelist := List.mem_insertionSort _

/-- A successful close_all_fds keeps the whitelist, or nothing if it is misled. -/
theorem closeAllFds_apply {os : Os} {fdWhitelist : List Int} {child : Child}
    (succeeded : ¬ (closeAllFds os fdWhitelist child).1.failed = true) (ints : ∀ fd ∈ fdWhitelist, IsInt fd)
    {number : Int} (numbered : IsNumber number) :
    (closeAllFds os fdWhitelist child).2.fds number =
      if Misled os fdWhitelist then none else child.fds.retain fdWhitelist number := by
  have sorted := List.pairwise_insertionSort (· ≤ ·) fdWhitelist
  have small : number ≤ openMax := le_of_lt numbered.2
  by_cases misled : Misled os fdWhitelist
  · rw [if_pos misled]
    -- sorted, the negative entry comes first and close_range closes everything
    obtain ⟨closed, fd, member, low⟩ := misled
    simp only [closeAllFds, closed]
    apply closeAll_negative sorted _ _ child.fds numbered.1 small
    · intro fd member
      exact ints fd (mem_sorted.mp member)
    · exact ⟨fd, mem_sorted.mpr member, low⟩
  · rw [if_neg misled, ← congrFun (child.fds.retain_congr fun _ => mem_sorted) number]
    unfold closeAllFds at succeeded ⊢
    cases outcome : os.closeAll with
    | closed =>
      apply closeAll_apply sorted _ child.fds numbered.1 small
      intro fd member
      have listed := mem_sorted.mp member
      exact ⟨not_lt.mp fun low => misled ⟨outcome, fd, listed, low⟩, (ints fd listed).2⟩
    | walked errno => rfl
    | listed => rfl
    | notOpened error => simp [outcome] at succeeded

/-- close_all_fds leaves a number as it was or closes it, however it ends. -/
theorem closeAllFds_cases (os : Os) (fdWhitelist : List Int) (child : Child) (number : Int) :
    (closeAllFds os fdWhitelist child).2.fds number = none ∨
      (closeAllFds os fdWhitelist child).2.fds number = child.fds number := by
  have looked (whitelist : List Int) :
      lookupAll whitelist child.fds number = none ∨ lookupAll whitelist child.fds number = child.fds number := by
    unfold lookupAll Table.retain
    split
    · exact .inr rfl
    · exact .inl rfl
  unfold closeAllFds
  cases os.closeAll with
  | closed => exact closeAll_cases _ child.fds number
  | walked errno => exact looked _
  | listed => exact looked _
  | notOpened error => exact .inr rfl

/-- A child with survivors has run the hooks and close_all_fds. -/
theorem setupAndExec_survivors {os : Os} {inits : List Initializer} {fdWhitelist : List Int} {child : Child}
    {after : Table File} (survived : (setupAndExec os inits fdWhitelist child).survivors = some after) :
    let reply := onExecSetup inits child
    let closed := closeAllFds os (fdWhitelist ++ reply.whitelisted) reply.child
    ¬ reply.ec.failed = true ∧ ¬ closed.1.failed = true ∧ after = closed.2.fds := by
  simp only [setupAndExec] at survived
  split at survived
  · cases survived
  · rename_i hooked
    split at survived
    · cases survived
    · rename_i closed
      split at survived
      · cases survived
        exact ⟨hooked, closed, rfl⟩
      · cases survived
        exact ⟨hooked, closed, rfl⟩

/-! ## What a launch pushes -/

/-- The exception that build_argv_ passes on. -/
def Args.thrown : Args → Option ErrorCode
  | .converted args _ => (convertAll args).2
  | _ => none

/-- What a launch pushes onto fd_whitelist in the parent. -/
def Launch.whitelisted (launch : Launch) : List Int :=
  match launch.args.thrown, launch.os.pipe, launch.os.fcntl with
  | none, .ok pipe, none =>
    let setup := onSetup launch.inits launch.errno
    setup.whitelisted ++ if setup.ec.failed then [] else [pipe.write]
  | _, _, _ => []

theorem buildArgv_thrown {executable : Nat} {args : Args} {self : Launcher} :
    (∃ ec, (buildArgv executable args self).2 = .error ec) ↔ args.thrown ≠ none := by
  unfold buildArgv Args.thrown
  cases args with
  | raw argv => simp
  | borrowed args => simp
  | converted args address =>
    dsimp only
    cases (convertAll args).2 <;> simp

theorem buildArgv_whitelist (executable : Nat) (args : Args) (self : Launcher) :
    (buildArgv executable args self).1.fdWhitelist = self.fdWhitelist := by
  unfold buildArgv
  cases args with
  | raw argv => rfl
  | borrowed args => rfl
  | converted args address =>
    dsimp only
    split <;> rfl

theorem DefaultLauncher.launch_whitelist {launch : Launch} (argv : List (Option Nat)) (self : Launcher)
    (converted : launch.args.thrown = none) :
    (DefaultLauncher.launch launch argv self).1.fdWhitelist = self.fdWhitelist ++ launch.whitelisted := by
  dsimp only [DefaultLauncher.launch, Launch.whitelisted]
  rw [converted]
  cases launch.os.pipe with
  | error error => simp
  | ok pipe =>
    cases launch.os.fcntl with
    | some error => simp
    | none =>
      dsimp only
      split
      · simp [Launcher.setUp]
      · cases launch.os.fork with
        | error error => simp [Launcher.setUp]
        | ok pid => simp [Launcher.setUp]

theorem call_whitelist (launch : Launch) (self : Launcher) :
    (Kind.call .default launch self).1.fdWhitelist = self.fdWhitelist ++ launch.whitelisted := by
  unfold Kind.call
  cases built : (buildArgv launch.executable launch.args self).2 with
  | error ec =>
    -- the exception comes before anything is pushed
    have thrown := buildArgv_thrown.mp ⟨ec, built⟩
    have nothing : launch.whitelisted = [] := by
      unfold Launch.whitelisted
      split
      · rename_i converted _ _
        exact absurd converted thrown
      · rfl
    simp only [built, buildArgv_whitelist, nothing, List.append_nil]
  | ok argv =>
    have converted : launch.args.thrown = none := by
      by_contra thrown
      obtain ⟨ec, failed⟩ := (@buildArgv_thrown launch.executable launch.args self).mpr thrown
      rw [built] at failed
      cases failed
    simp only [built]
    exact (DefaultLauncher.launch_whitelist argv _ converted).trans (by rw [buildArgv_whitelist])

/-- Behind any launches the whitelist is the one before them and all they pushed. -/
theorem run_whitelist {launches : List Launch} {self final : Launcher}
    (reached : Transition.run (Kind.step .default) self launches = some final) :
    final.fdWhitelist = self.fdWhitelist ++ launches.flatMap Launch.whitelisted := by
  induction launches generalizing self with
  | nil =>
    cases reached
    simp
  | cons launch rest ih =>
    obtain ⟨next, taken, reached⟩ := Transition.run_cons.mp reached
    cases taken
    rw [ih reached, call_whitelist, List.flatMap_cons, List.append_assoc]

/-! ## The n-th child -/

/-- The child of a launch: its descriptors and hooks up to close_all_fds. -/
def DefaultLauncher.execSetup (launch : Launch) (pipe : Pipe) : ExecSetupReply :=
  onExecSetup launch.inits (forkedChild launch pipe launch.prepared)

/-- The numbers that a launch whitelists for its own child. -/
def DefaultLauncher.owned (launch : Launch) (pipe : Pipe) : List Int :=
  [0, 1, 2] ++ (onSetup launch.inits launch.errno).whitelisted ++ [pipe.write] ++
    (execSetup launch pipe).whitelisted

/-- fd_whitelist in the child when close_all_fds reads it. -/
def DefaultLauncher.childWhitelist (launch : Launch) (pipe : Pipe) (self : Launcher) : List Int :=
  (launch.setUp self).fdWhitelist ++ [pipe.write] ++ (execSetup launch pipe).whitelisted

def SurvivesExactly (before after : Table File) (owned : List Int) : Prop :=
  ∀ number, IsNumber number → (after.Open number ↔ number ∈ owned ∧ before.Open number)

theorem DefaultLauncher.path_forked {launch : Launch} {self : Launcher} {result : ChildResult}
    (forked : (path launch self).result = some result) {pipe : Pipe} (piped : launch.os.pipe = .ok pipe) :
    result = childResult launch pipe self := by
  unfold path at forked
  simp only [piped] at forked
  split at forked
  · cases forked
  · simp only [pathFromSetup] at forked
    split at forked
    · cases forked
    · split at forked
      · cases forked
      · exact (Option.some.inj forked).symm

section
variable {launch : Launch} {self : Launcher} {pipe : Pipe} {after : Table File} {number : Int}

/-- The child of a launch through a launcher with any whitelist. -/
theorem survivors_apply (survived : (DefaultLauncher.childResult launch pipe self).survivors = some after)
    (ints : ∀ fd ∈ DefaultLauncher.childWhitelist launch pipe self, IsInt fd) (numbered : IsNumber number) :
    after number = if Misled launch.os (DefaultLauncher.childWhitelist launch pipe self) then none
      else (DefaultLauncher.execSetup launch pipe).child.fds.retain
        (DefaultLauncher.childWhitelist launch pipe self) number := by
  obtain ⟨-, closed, rfl⟩ := setupAndExec_survivors survived
  exact closeAllFds_apply closed ints numbered

theorem survivors_open (survived : (DefaultLauncher.childResult launch pipe self).survivors = some after)
    (ints : ∀ fd ∈ DefaultLauncher.childWhitelist launch pipe self, IsInt fd) (numbered : IsNumber number) :
    after.Open number ↔ ¬ Misled launch.os (DefaultLauncher.childWhitelist launch pipe self) ∧
      number ∈ DefaultLauncher.childWhitelist launch pipe self ∧
      (DefaultLauncher.execSetup launch pipe).child.fds.Open number := by
  have entry := survivors_apply survived ints numbered
  by_cases misled : Misled launch.os (DefaultLauncher.childWhitelist launch pipe self)
  · rw [if_pos misled] at entry
    simp [Table.Open, entry, misled]
  · rw [if_neg misled] at entry
    have retained := @Table.open_retain_iff _ (DefaultLauncher.execSetup launch pipe).child.fds
      (DefaultLauncher.childWhitelist launch pipe self) number
    simp only [Table.Open, entry] at retained ⊢
    simp [retained, misled, and_comm]

end

theorem call_child {launch : Launch} {self : Launcher} {pipe : Pipe} {returned : Returned} {child : ChildRun}
    (called : (Kind.call .default launch self).2 = .ok returned) (ran : returned.child = some child)
    (piped : launch.os.pipe = .ok pipe) :
    child.result = DefaultLauncher.childResult launch pipe (buildArgv launch.executable launch.args self).1 := by
  unfold Kind.call at called
  cases built : (buildArgv launch.executable launch.args self).2 with
  | error ec => simp [built] at called
  | ok argv =>
    simp only [built, Except.ok.injEq] at called
    have spec := DefaultLauncher.launch_spec launch argv (buildArgv launch.executable launch.args self).1
    have result := spec.result
    change (Kind.launch .default _ _ _).2.child.map _ = _ at result
    rw [called, ran] at result
    exact DefaultLauncher.path_forked result.symm piped

theorem misled_congr {os : Os} {first second : List Int} (same : ∀ fd, fd ∈ first ↔ fd ∈ second) :
    Misled os first ↔ Misled os second := by
  simp only [Misled, same]

/-- The n-th child keeps exactly its own descriptors as long as no earlier launch
whitelisted a number that is open in it for another reason, and none is negative. -/
theorem survivors_iff (env : Nat) (earlier : List Launch) (launch : Launch) (self : Launcher) (pipe : Pipe)
    (returned : Returned) (child : ChildRun) (after : Table File)
    (reached : Transition.run (Kind.step .default) { env } earlier = some self)
    (called : (Kind.call .default launch self).2 = .ok returned) (ran : returned.child = some child)
    (survived : child.result.survivors = some after) (piped : launch.os.pipe = .ok pipe)
    (ints : ∀ fd ∈ earlier.flatMap Launch.whitelisted ++ DefaultLauncher.owned launch pipe, IsInt fd) :
    let before := (DefaultLauncher.execSetup launch pipe).child.fds
    let owned := DefaultLauncher.owned launch pipe
    let stale := earlier.flatMap Launch.whitelisted
    SurvivesExactly before after owned ↔
      (Misled launch.os (stale ++ owned) → ∀ number ∈ owned, IsNumber number → ¬ before.Open number) ∧
        (¬ Misled launch.os (stale ++ owned) →
          ∀ number ∈ stale, IsNumber number → before.Open number → number ∈ owned) := by
  intro before owned stale
  rw [call_child called ran piped] at survived
  -- fork copies the list that all launches so far have appended to
  have listed : (buildArgv launch.executable launch.args self).1.fdWhitelist = [0, 1, 2] ++ stale := by
    rw [buildArgv_whitelist, run_whitelist reached]
  have members : ∀ fd, fd ∈ DefaultLauncher.childWhitelist launch pipe
      (buildArgv launch.executable launch.args self).1 ↔ fd ∈ stale ++ owned := by
    intro fd
    simp only [DefaultLauncher.childWhitelist, Launch.setUp, Launcher.setUp, listed, owned, DefaultLauncher.owned,
      List.mem_append]
    tauto
  have opened {number : Int} (numbered : IsNumber number) : after.Open number ↔
      ¬ Misled launch.os (stale ++ owned) ∧ number ∈ stale ++ owned ∧ before.Open number := by
    rw [survivors_open survived (fun fd member => ints fd ((members fd).mp member)) numbered,
      misled_congr members, members number]
  unfold SurvivesExactly
  constructor
  · intro exactly
    refine ⟨fun misled number member numbered isOpen => ?_, fun straight number member numbered isOpen => ?_⟩
    · exact ((opened numbered).mp ((exactly number numbered).mpr ⟨member, isOpen⟩)).1 misled
    · have kept := (opened numbered).mpr ⟨straight, List.mem_append_left owned member, isOpen⟩
      exact ((exactly number numbered).mp kept).1
  · rintro ⟨nothing, own⟩ number numbered
    rw [opened numbered]
    by_cases misled : Misled launch.os (stale ++ owned)
    · have closed := nothing misled number
      tauto
    · have ownOnly := own misled number
      rw [List.mem_append]
      tauto

/-- The second launch of a parent that has meanwhile opened another file as 4, the
number of the first launch's error pipe. -/
def laterLaunch : Launch where
  executable := 1
  args := .borrowed []
  inits := []
  errno := 0
  fds := openBelow 5
  os := { ordinaryOs none with pipe := .ok secondPipe }

/-- Two launches bind a file to 3, and each of their children keeps exactly its own descriptors. -/
def rebinding (pipe : Pipe) : Launch := launchOf [bindFd 3 0] { ordinaryOs none with pipe := .ok pipe }

theorem survivors_rebound : ∃ self returned child after,
    Transition.run (Kind.step .default) { env := 9 } [rebinding firstPipe] = some self ∧
      (Kind.call .default (rebinding secondPipe) self).2 = .ok returned ∧ returned.child = some child ∧
      child.result.survivors = some after ∧
      SurvivesExactly (DefaultLauncher.execSetup (rebinding secondPipe) secondPipe).child.fds after
        (DefaultLauncher.owned (rebinding secondPipe) secondPipe) := by
  refine ⟨_, _, _, _, rfl, rfl, rfl, rfl, ?_⟩
  refine (survivors_iff 9 [rebinding firstPipe] (rebinding secondPipe) _ _ _ _ _ rfl rfl rfl rfl rfl (by decide)).mpr ⟨?_, ?_⟩
  · intro misled
    exact absurd misled (by decide)
  · intro _
    decide

/-- The second child keeps the parent's file 4, which nobody whitelisted for it. -/
theorem survivors_leak : ∃ self returned child after,
    Transition.run (Kind.step .default) { env := 9 } [launchOf [] (ordinaryOs none)] = some self ∧
      (Kind.call .default laterLaunch self).2 = .ok returned ∧ returned.child = some child ∧
      child.result.survivors = some after ∧ after.Open 4 ∧
      ¬ SurvivesExactly (DefaultLauncher.execSetup laterLaunch secondPipe).child.fds after
        (DefaultLauncher.owned laterLaunch secondPipe) := by
  refine ⟨_, _, _, _, rfl, rfl, rfl, rfl, by decide, fun exactly => ?_⟩
  have kept := (exactly 4 (by decide)).mp (by decide)
  exact absurd kept.1 (by decide)

end BoostProcess.V2.Posix
