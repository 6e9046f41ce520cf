import BoostProcess.Library.Blocks
import BoostProcess.V2.Posix.Sequence

/-! The argv of the n-th launch through one launcher.

argv_ is appended to and never cleared, so a child finds what the first launch
put there. Strings are compared where execve reads them, behind the pointers.
-/

set_option autoImplicit false

namespace BoostProcess.V2.Posix

/-- What execve reads: the strings up to the first null pointer. -/
def seen (memory : Nat → Option String) (argv : List (Option Nat)) : List (Option String) :=
  (argv.takeWhile Option.isSome).map fun pointer => pointer.bind memory

namespace Args

/-- Everything but the `const char **` overload. -/
def IsRange : Args → Prop
  | .raw _ => False
  | _ => True

/-- The argument strings, of a range. -/
def texts (memory : Nat → Option String) : Args → List (Option String)
  | .borrowed args => args.map memory
  | .converted args _ => args.map Except.toOption
  | .raw _ => []

/-- The strings of the launcher's buffer are in memory at their addresses. -/
def Loaded (memory : Nat → Option String) (argvBuffer : List String) : Args → Prop
  | .converted _ address =>
    ∀ (index : Nat) (text : String), argvBuffer[index]? = some text → memory (address index) = some text
  | _ => True

end Args

/-- [exe, args...] -/
def Launch.intended (memory : Nat → Option String) (launch : Launch) : List (Option String) :=
  memory launch.executable :: launch.args.texts memory

section
variable {memory : Nat → Option String}

theorem seen_of_none_mem {first second : List (Option Nat)} (terminated : none ∈ first) :
    seen memory (first ++ second) = seen memory first := by
  induction first with
  | nil => cases terminated
  | cons pointer rest ih =>
    cases pointer with
    | none => rfl
    | some address =>
      have later : none ∈ rest := by simpa using terminated
      have same := ih later
      simp only [seen, List.cons_append, List.takeWhile_cons, Option.isSome_some, ↓reduceIte, List.map_cons,
        List.cons.injEq, true_and] at same ⊢
      exact same

theorem seen_of_none_notMem {first second : List (Option Nat)} (unterminated : none ∉ first) :
    seen memory (first ++ second) = seen memory first ++ seen memory second ∧
      (seen memory first).length = first.length := by
  induction first with
  | nil => exact ⟨rfl, rfl⟩
  | cons pointer rest ih =>
    cases pointer with
    | none => exact absurd List.mem_cons_self unterminated
    | some address =>
      obtain ⟨same, count⟩ := ih fun member => unterminated (List.mem_cons_of_mem _ member)
      simp only [seen, List.cons_append, List.takeWhile_cons, Option.isSome_some, ↓reduceIte, List.map_cons,
        List.length_cons] at same count ⊢
      rw [same, count]
      exact ⟨rfl, rfl⟩

theorem seen_pointers (addresses : List Nat) : seen memory (addresses.map some ++ [none]) = addresses.map memory := by
  unfold seen
  rw [Blocks.takeWhile_null, List.map_map]
  rfl

theorem convertAll_texts {args : List (Except ErrorCode String)} (converted : (convertAll args).2 = none) :
    (convertAll args).1.map some = args.map Except.toOption := by
  induction args with
  | nil => rfl
  | cons arg rest ih =>
    cases arg with
    | error ec => cases converted
    | ok text =>
      simp only [convertAll, List.map_cons, ih converted]
      rfl

end

/-- The pointers that one call of build_argv_ appends in front of its null. -/
def appended (launch : Launch) (after : Launcher) : List Nat :=
  launch.executable :: match launch.args with
    | .borrowed args => args
    | .converted _ address => (List.range after.argvBuffer.length).map address
    | .raw _ => []

section
variable {launch : Launch} {self : Launcher} {argv : List (Option Nat)}

theorem buildArgv_appends (range : launch.args.IsRange)
    (built : (buildArgv launch.executable launch.args self).2 = .ok argv) :
    argv = self.argv ++ ((appended launch (buildArgv launch.executable launch.args self).1).map some ++ [none]) ∧
      (buildArgv launch.executable launch.args self).1.argv = argv := by
  unfold buildArgv at built ⊢
  unfold appended
  cases supplied : launch.args with
  | raw given => rw [supplied] at range; exact range.elim
  | borrowed args =>
    simp only [supplied, Except.ok.injEq] at built ⊢
    simp [← built]
  | converted args address =>
    simp only [supplied] at built ⊢
    cases thrown : (convertAll args).2 with
    | some ec => simp [thrown] at built
    | none =>
      simp only [thrown, Except.ok.injEq] at built
      simp [← built, Function.comp_def]

theorem appended_length (memory : Nat → Option String) (range : launch.args.IsRange)
    (built : (buildArgv launch.executable launch.args self).2 = .ok argv) :
    (launch.intended memory).length ≤
      (appended launch (buildArgv launch.executable launch.args self).1).length := by
  unfold Launch.intended appended buildArgv at *
  cases supplied : launch.args with
  | raw given => rw [supplied] at range; exact range.elim
  | borrowed args => simp [Args.texts]
  | converted args address =>
    simp only [supplied] at built ⊢
    cases thrown : (convertAll args).2 with
    | some ec => simp [thrown] at built
    | none =>
      have count := congrArg List.length (convertAll_texts thrown)
      simp only [List.length_map] at count
      simp [Args.texts, count]

theorem appended_texts {memory : Nat → Option String} (range : launch.args.IsRange) (unbuffered : self.argvBuffer = [])
    (loaded : launch.args.Loaded memory (buildArgv launch.executable launch.args self).1.argvBuffer)
    (built : (buildArgv launch.executable launch.args self).2 = .ok argv) :
    (appended launch (buildArgv launch.executable launch.args self).1).map memory = launch.intended memory := by
  unfold Launch.intended appended buildArgv at *
  cases supplied : launch.args with
  | raw given => rw [supplied] at range; exact range.elim
  | borrowed args => simp [Args.texts]
  | converted args address =>
    simp only [supplied] at built loaded ⊢
    cases thrown : (convertAll args).2 with
    | some ec => simp [thrown] at built
    | none =>
      simp only [thrown, unbuffered, List.nil_append, Args.Loaded] at loaded ⊢
      simp only [List.map_cons, Args.texts, ← convertAll_texts thrown, List.cons.injEq, true_and, List.map_map]
      -- the pointers are those of the buffer, and it holds the strings of this launch only
      apply List.ext_getElem?
      intro index
      cases entry : (convertAll args).1[index]? with
      | none =>
        have outside := List.getElem?_eq_none_iff.mp entry
        simp [outside]
      | some text =>
        obtain ⟨inside, same⟩ := List.getElem?_eq_some_iff.mp entry
        simp [inside, same, loaded index text entry]

end

/-! ## Sequences of launches -/

/-- A launcher that has built no argv has stored no argument either. -/
def Unused (self : Launcher) : Prop := self.argv = [] → self.argvBuffer = []

theorem buildArgv_unused {executable : Nat} {args : Args} {self : Launcher} (unused : Unused self) :
    Unused (buildArgv executable args self).1 := by
  unfold Unused buildArgv at *
  cases args with
  | raw argv => exact unused
  | borrowed args => simp
  | converted args address =>
    dsimp only
    split <;> simp

theorem Kind.call_unused (kind : Kind) :
    Transition.Preserves kind.step (fun _ _ => True) Unused := by
  intro self launch next unused _ taken
  cases taken
  have built := @buildArgv_unused launch.executable launch.args self unused
  unfold Kind.call
  dsimp only
  split
  · exact built
  · rename_i argv _
    -- behind build_argv_ neither member is written
    have kept := kind.launch_keeps launch argv (buildArgv launch.executable launch.args self).1
    unfold Unused at built ⊢
    rw [kept.member, kept.buffer]
    exact built

/-- The child of a launch that got through build_argv_ runs with what it built. -/
theorem Kind.call_child {kind : Kind} {launch : Launch} {self : Launcher} {returned : Returned} {child : ChildRun}
    (called : (kind.call launch self).2 = .ok returned) (ran : returned.child = some child) :
    (buildArgv launch.executable launch.args self).2 = .ok child.argv ∧
      (kind.call launch self).1.argvBuffer = (buildArgv launch.executable launch.args self).1.argvBuffer := by
  unfold Kind.call at called ⊢
  cases built : (buildArgv launch.executable launch.args self).2 with
  | error ec => simp [built] at called
  | ok argv =>
    simp only [built, Except.ok.injEq] at called ⊢
    have kept := kind.launch_keeps launch argv (buildArgv launch.executable launch.args self).1
    rw [kept.child child (by rw [called]; exact ran), kept.buffer]
    exact ⟨rfl, rfl⟩

theorem seen_iff_of_unused {kind : Kind} {launch : Launch} {self : Launcher} {memory : Nat → Option String}
    {returned : Returned} {child : ChildRun} (unused : Unused self) (range : launch.args.IsRange)
    (loaded : launch.args.Loaded memory (kind.call launch self).1.argvBuffer)
    (called : (kind.call launch self).2 = .ok returned) (ran : returned.child = some child) :
    seen memory child.argv = launch.intended memory ↔
      self.argv = [] ∨ none ∈ self.argv ∧ seen memory self.argv = launch.intended memory := by
  obtain ⟨built, buffer⟩ := Kind.call_child called ran
  rw [buffer] at loaded
  obtain ⟨shape, -⟩ := buildArgv_appends range built
  rw [shape]
  by_cases terminated : none ∈ self.argv
  -- execve stops at the null pointer of an earlier launch
  · have nonempty : self.argv ≠ [] := List.ne_nil_of_mem terminated
    simp [seen_of_none_mem terminated, terminated, nonempty]
  · obtain ⟨same, count⟩ := @seen_of_none_notMem memory self.argv _ terminated
    rw [same, seen_pointers]
    constructor
    · intro equal
      -- pointers in front of a complete argv make it too long
      have lengths := congrArg List.length equal
      have enough := appended_length memory range built
      simp only [List.length_append, count, List.length_map] at lengths
      exact .inl (List.length_eq_zero_iff.mp (by omega))
    · rintro (empty | ⟨impossible, -⟩)
      · rw [appended_texts range (unused empty) loaded built, empty]
        rfl
      · exact absurd impossible terminated

/-- The child of the n-th launch through one launcher sees its own argv exactly when
no argv was built before, or the stale one still reads the same. -/
theorem argv_seen_iff (kind : Kind) (env : Nat) (earlier : List Launch) (launch : Launch) (self : Launcher)
    (memory : Nat → Option String) (returned : Returned) (child : ChildRun)
    (reached : Transition.run kind.step { env } earlier = some self) (range : launch.args.IsRange)
    (loaded : launch.args.Loaded memory (kind.call launch self).1.argvBuffer)
    (called : (kind.call launch self).2 = .ok returned) (ran : returned.child = some child) :
    seen memory child.argv = launch.intended memory ↔
      self.argv = [] ∨ none ∈ self.argv ∧ seen memory self.argv = launch.intended memory := by
  have unused : Unused self :=
    Transition.run_invariant kind.call_unused (fun _ => rfl) Transition.admits_true reached
  exact seen_iff_of_unused unused range loaded called ran

theorem BoundLauncher.seen_iff (kind : Kind) (env : Nat) (init : List Initializer) (earlier : List Launch)
    (launch : Launch) (self : BoundLauncher) (memory : Nat → Option String) (returned : Returned) (child : ChildRun)
    (reached : Transition.run (BoundLauncher.step kind) ⟨{ env }, init⟩ earlier = some self)
    (range : launch.args.IsRange)
    (loaded : launch.args.Loaded memory (self.call kind launch).1.launcher.argvBuffer)
    (called : (self.call kind launch).2 = .ok returned) (ran : returned.child = some child) :
    seen memory child.argv = launch.intended memory ↔
      self.launcher.argv = [] ∨
        none ∈ self.launcher.argv ∧ seen memory self.launcher.argv = launch.intended memory := by
  obtain ⟨-, inner⟩ := BoundLauncher.run_step reached
  have unused : Unused self.launcher :=
    Transition.run_invariant kind.call_unused (fun _ => rfl) Transition.admits_true inner
  let forwarded : Launch := { launch with inits := self.init ++ launch.inits }
  have iff : seen memory child.argv = forwarded.intended memory ↔ _ :=
    seen_iff_of_unused unused range loaded called ran
  exact iff

/-- Two command lines, `/bin/a x` and `/bin/b y`. -/
def commandLine (address : Nat) : Launch :=
  { launchOf [] (ordinaryOs none) with executable := address, args := .borrowed [address + 1] }

def commandMemory : Nat → Option String
  | 1 => some "/bin/a"
  | 2 => some "x"
  | 3 => some "/bin/b"
  | 4 => some "y"
  | _ => none

/-- The second launch of one command line sees it, since the argv of the first still reads the same. -/
theorem argv_seen_again : ∃ self returned child,
    Transition.run (Kind.step .default) { env := 9 } [commandLine 1] = some self ∧
      (Kind.call .default (commandLine 1) self).2 = .ok returned ∧ returned.child = some child ∧
      seen commandMemory child.argv = (commandLine 1).intended commandMemory := by
  refine ⟨_, _, _, rfl, rfl, rfl, ?_⟩
  exact (argv_seen_iff .default 9 [commandLine 1] (commandLine 1) _ commandMemory _ _ rfl trivial trivial rfl rfl).mpr
    (.inr ⟨by decide, rfl⟩)

/-- The second launch runs `/bin/b` with the argv of the first. -/
theorem argv_stale : ∃ self returned child,
    Transition.run (Kind.step .default) { env := 9 } [commandLine 1] = some self ∧
      (Kind.call .default (commandLine 3) self).2 = .ok returned ∧ returned.child = some child ∧
      seen commandMemory child.argv = [some "/bin/a", some "x"] ∧
      (commandLine 3).intended commandMemory = [some "/bin/b", some "y"] :=
  ⟨_, _, _, rfl, rfl, rfl, rfl, rfl⟩

end BoostProcess.V2.Posix
