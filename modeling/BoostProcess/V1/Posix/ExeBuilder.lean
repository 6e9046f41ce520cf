import BoostProcess.Library.Transition
import BoostProcess.V1.Posix.CmdShell
import BoostProcess.V1.Posix.CmdStyle
import Mathlib.Data.List.TakeWhile

/-! exe_builder: what of the arguments of child, spawn and system becomes the program, and what its arguments.

Given are the arguments in the order in which they are passed; those for other initializers go elsewhere.
-/

set_option autoImplicit false

namespace BoostProcess.V1.Posix.Command

open Pieces Transition

inductive Given where
  | path (native : CharString)
  /-- A string, or a pointer to one. -/
  | text (data : CharString)
  | texts (data : List CharString)
  /-- `exe = ...` -/
  | exe (name : CharString)
  /-- `args = ...` -/
  | args (list : List CharString)
  /-- `args += ...` -/
  | moreArgs (list : List CharString)
  | shell
  deriving DecidableEq

structure ExeBuilder where
  /-- Set by a path, because that will not be interpreted as a cmd. -/
  notCmd : Bool := false
  shell : Bool := false
  exe : CharString := []
  args : List CharString := []
  deriving DecidableEq

namespace ExeBuilder

/-- The first text is the program, as long as it has no name. -/
def addText (builder : ExeBuilder) (data : CharString) : ExeBuilder :=
  if builder.exe = [] then { builder with exe := data } else { builder with args := builder.args ++ [data] }

def addTexts (builder : ExeBuilder) : List CharString → ExeBuilder
  | [] => builder
  | first :: rest =>
    if builder.exe = [] then { builder with exe := first, args := builder.args ++ rest }
    else { builder with args := builder.args ++ first :: rest }

/-- `operator()` -/
def add (builder : ExeBuilder) : Given → ExeBuilder
  | .path native => { builder with notCmd := true }.addText native
  | .text data => builder.addText data
  | .texts data => builder.addTexts data
  | .exe name => { builder with notCmd := true, exe := name }
  | .args list => { builder with args := list }
  | .moreArgs list => { builder with args := builder.args ++ list }
  | .shell => { builder with shell := true }

end ExeBuilder

structure ExeCmdInit where
  exe : CharString
  args : List CharString
  deriving DecidableEq

namespace ExeCmdInit

/-- `shell()` -/
def shellPath : CharString := [47, 98, 105, 110, 47, 115, 104]

/-- `"-c"` -/
def dashC : CharString := [45, 99]

def exeArgsShell (exe : CharString) (args : List CharString) : ExeCmdInit := ⟨shellPath, [dashC, buildCmdShell exe args]⟩

/-- build_args is undefined for some lines. -/
def cmd (cmd : CharString) : Option ExeCmdInit := (buildArgs cmd).map fun args => ⟨[], args⟩

def cmdShell (cmd : CharString) : ExeCmdInit := ⟨shellPath, [dashC, cmd]⟩

/-- `on_setup`: what `exec.exe` is, and whether it is looked for. -/
def program (init : ExeCmdInit) : CharString × Bool :=
  if init.exe = [] then (init.args.headD [], true) else (init.exe, false)

/-- `make_cmd` -/
def makeCmd (init : ExeCmdInit) : List CharString := (if init.exe = [] then [] else [init.exe]) ++ init.args

end ExeCmdInit

def ExeBuilder.getInitializer (builder : ExeBuilder) : Option ExeCmdInit :=
  if builder.notCmd ∨ builder.args ≠ [] then
    if builder.shell then some (.exeArgsShell builder.exe builder.args) else some ⟨builder.exe, builder.args⟩
  else if builder.shell then some (.cmdShell builder.exe)
  else ExeCmdInit.cmd builder.exe

/-- What execve reads of a string. -/
def cString (text : CharString) : CharString := text.takeWhile (· ≠ 0)

structure Started where
  file : CharString
  argv : List CharString
  deriving DecidableEq

/-- The file that is executed: prepare_cmd_style looks for a program in cmd style. -/
def ExeCmdInit.file (init : ExeCmdInit) (executable : CharString → Bool) (environ : Option (List CharString)) : CharString :=
  let name := cString init.program.1
  if init.program.2 then prepareCmdStyle executable environ name else name

def start (executable : CharString → Bool) (environ : Option (List CharString)) (given : List Given) : Option Started :=
  (given.foldl ExeBuilder.add {}).getInitializer.map fun init =>
    { file := init.file executable environ, argv := init.makeCmd.map cString }

/-! ## The words that are given -/

/-- The words that the caller means to be the program and its arguments. -/
def Given.words : Given → List CharString
  | .path native => [native]
  | .text data => [data]
  | .texts data => data
  | .exe name => [name]
  | .args list => list
  | .moreArgs list => list
  | .shell => []

/-- How much of them there is: each word counts for one more than it is long. -/
def size (words : List CharString) : Nat := (words.map fun word => word.length + 1).sum

@[simp] theorem size_nil : size [] = 0 := rfl

@[simp] theorem size_cons (word : CharString) (rest : List CharString) : size (word :: rest) = word.length + 1 + size rest := rfl

@[simp] theorem size_append (front rest : List CharString) : size (front ++ rest) = size front + size rest := by
  simp [size]

theorem size_perm {one other : List CharString} (perm : one.Perm other) : size one = size other := (perm.map _).sum_nat

theorem size_pos {words : List CharString} (filled : words ≠ []) : 0 < size words := by
  cases words with
  | nil => exact absurd rfl filled
  | cons word rest =>
    rw [size_cons]
    omega

namespace ExeBuilder

/-- The program and its arguments as they stand. -/
def words (builder : ExeBuilder) : List CharString := (if builder.exe = [] then [] else [builder.exe]) ++ builder.args

/-- No word that has been taken is replaced, and no empty one comes where the program is to be named. -/
def Keeps (builder : ExeBuilder) : Given → Prop
  | .path data | .text data => builder.exe = [] → data ≠ []
  | .texts data => builder.exe = [] → data.head? ≠ some []
  | .exe name => builder.exe = [] ∧ name ≠ []
  | .args _ => builder.args = []
  | .moreArgs _ | .shell => True

instance (builder : ExeBuilder) : (given : Given) → Decidable (builder.Keeps given)
  | .path _ | .text _ | .texts _ => inferInstanceAs (Decidable (_ → _))
  | .exe _ => inferInstanceAs (Decidable (_ ∧ _))
  | .args _ => inferInstanceAs (Decidable (_ = _))
  | .moreArgs _ | .shell => inferInstanceAs (Decidable True)

def step (builder : ExeBuilder) (given : Given) : Option ExeBuilder := some (builder.add given)

variable {builder : ExeBuilder} {given : Given}

theorem words_named (named : builder.exe ≠ []) : builder.words = builder.exe :: builder.args := by
  rw [words, if_neg named]
  rfl

theorem words_unnamed (unnamed : builder.exe = []) : builder.words = builder.args := by
  rw [words, if_pos unnamed]
  rfl

theorem words_append (builder : ExeBuilder) (list : List CharString) :
    ({ builder with args := builder.args ++ list } : ExeBuilder).words.Perm (builder.words ++ list) := by
  rw [words, words, List.append_assoc]

theorem addText_kept {data : CharString} (kept : builder.exe = [] → data ≠ []) :
    (builder.addText data).words.Perm (builder.words ++ [data]) ∧
      (builder.addText data).args.Sublist (builder.args ++ [data]) := by
  unfold addText
  split
  · rename_i unnamed
    rw [words_unnamed unnamed, words_named (kept unnamed)]
    exact ⟨List.perm_append_singleton data builder.args |>.symm, List.sublist_append_left ..⟩
  · exact ⟨words_append builder [data], List.Sublist.refl _⟩

theorem addText_lost {data : CharString} (lost : ¬ (builder.exe = [] → data ≠ [])) :
    size (builder.addText data).words < size builder.words + size [data] := by
  obtain ⟨unnamed, empty⟩ := Classical.not_imp.mp lost
  rw [not_not.mp empty, addText, if_pos unnamed, words_unnamed rfl, words_unnamed unnamed]
  exact Nat.lt_succ_self _

/-- A step keeps all words that there are and does not change the order of the arguments. -/
theorem add_kept (kept : builder.Keeps given) :
    (builder.add given).words.Perm (builder.words ++ given.words) ∧
      (builder.add given).args.Sublist (builder.args ++ given.words) := by
  cases given with
  | path native => exact @addText_kept { builder with notCmd := true } native kept
  | text data => exact addText_kept kept
  | texts data =>
    cases data with
    | nil =>
      rw [Given.words, List.append_nil, List.append_nil]
      exact ⟨.refl _, List.Sublist.refl _⟩
    | cons first rest =>
      by_cases unnamed : builder.exe = []
      · have filled : first ≠ [] := fun empty => kept unnamed (congrArg some empty)
        rw [add, addTexts, if_pos unnamed, words_unnamed unnamed, words_named filled]
        exact ⟨List.perm_middle.symm, List.Sublist.append_left (List.sublist_cons_self ..) _⟩
      · rw [add, addTexts, if_neg unnamed]
        exact ⟨words_append builder (first :: rest), List.Sublist.refl _⟩
  | exe name =>
    rw [add, words_named kept.2, words_unnamed kept.1]
    exact ⟨List.perm_append_singleton name builder.args |>.symm, List.sublist_append_left ..⟩
  | args list =>
    have same : builder.add (.args list) = { builder with args := builder.args ++ list } := by
      rw [show builder.args = [] from kept]
      rfl
    rw [same]
    exact ⟨words_append builder list, List.Sublist.refl _⟩
  | moreArgs list => exact ⟨words_append builder list, List.Sublist.refl _⟩
  | shell =>
    rw [Given.words, List.append_nil, List.append_nil]
    exact ⟨.refl _, List.Sublist.refl _⟩

/-- Otherwise it loses some for good. -/
theorem add_lost (lost : ¬ builder.Keeps given) : size (builder.add given).words < size builder.words + size given.words := by
  cases given with
  | path native => exact @addText_lost { builder with notCmd := true } native lost
  | text data => exact addText_lost lost
  | texts data =>
    obtain ⟨unnamed, empty⟩ := Classical.not_imp.mp lost
    obtain ⟨rest, rfl⟩ := List.head?_eq_some_iff.mp (not_not.mp empty)
    rw [add, addTexts, if_pos unnamed, words_unnamed rfl, words_unnamed unnamed, size_append, Given.words, size_cons]
    omega
  | exe name =>
    rw [add, words, words, size_append, size_append, Given.words, size_cons, size_nil]
    dsimp only
    by_cases unnamed : builder.exe = []
    · have empty : name = [] := not_not.mp fun filled => lost ⟨unnamed, filled⟩
      rw [if_pos empty, if_pos unnamed, empty]
      exact Nat.lt_succ_of_le (Nat.le_of_eq rfl)
    · rw [if_neg unnamed]
      split <;> simp only [size_nil, size_cons] <;> omega
  | args list =>
    have filled := size_pos lost
    rw [add, words, words, size_append, size_append, Given.words]
    dsimp only
    omega
  | moreArgs list => exact absurd trivial lost
  | shell => exact absurd trivial lost

theorem add_size_le (builder : ExeBuilder) (given : Given) :
    size (builder.add given).words ≤ size builder.words + size given.words := by
  by_cases kept : builder.Keeps given
  · exact Nat.le_of_eq ((size_perm (add_kept kept).1).trans (size_append ..))
  · exact Nat.le_of_lt (add_lost kept)

theorem foldl_size_le (builder : ExeBuilder) (given : List Given) :
    size (given.foldl add builder).words ≤ size builder.words + size (given.flatMap Given.words) := by
  induction given generalizing builder with
  | nil => exact Nat.le_refl _
  | cons first rest ih =>
    have here := builder.add_size_le first
    have later := ih (builder.add first)
    rw [List.flatMap_cons, size_append]
    exact Nat.le_trans later (by omega)

theorem foldl_kept {builder : ExeBuilder} {given : List Given} (kept : Admits step Keeps builder given) :
    (given.foldl add builder).words.Perm (builder.words ++ given.flatMap Given.words) ∧
      (given.foldl add builder).args.Sublist (builder.args ++ given.flatMap Given.words) := by
  induction given generalizing builder with
  | nil =>
    rw [List.flatMap_nil, List.append_nil, List.append_nil]
    exact ⟨.refl _, List.Sublist.refl _⟩
  | cons first rest ih =>
    obtain ⟨here, later⟩ := (admits_cons rfl).mp kept
    obtain ⟨words, args⟩ := add_kept here
    obtain ⟨allWords, allArgs⟩ := ih later
    rw [List.flatMap_cons, ← List.append_assoc, ← List.append_assoc]
    exact ⟨allWords.trans (words.append_right _), allArgs.trans (args.append_right _)⟩

theorem foldl_lost {builder : ExeBuilder} {given : List Given} (lost : ¬ Admits step Keeps builder given) :
    size (given.foldl add builder).words < size builder.words + size (given.flatMap Given.words) := by
  induction given generalizing builder with
  | nil => exact absurd trivial lost
  | cons first rest ih =>
    rw [admits_cons rfl, not_and] at lost
    rw [List.flatMap_cons, size_append, List.foldl_cons]
    by_cases here : builder.Keeps first
    · have same := size_perm (add_kept here).1
      have fewer := ih (lost here)
      rw [size_append] at same
      omega
    · have fewer := add_lost here
      have rest := foldl_size_le (builder.add first) rest
      omega

end ExeBuilder

/-! ## What the program gets -/

theorem cString_eq_self {text : CharString} : cString text = text ↔ 0 ∉ text := by
  rw [cString, List.takeWhile_eq_self_iff]
  simp only [decide_eq_true_eq]
  exact ⟨fun all zero => all 0 zero rfl, fun free code member zero => free (zero ▸ member)⟩

theorem cString_length_le (text : CharString) : (cString text).length ≤ text.length := (List.takeWhile_prefix _).length_le

theorem size_cString_le (words : List CharString) : size (words.map cString) ≤ size words := by
  induction words with
  | nil => exact Nat.le_refl _
  | cons word rest ih =>
    have shorter := cString_length_le word
    rw [List.map_cons, size_cons, size_cons]
    omega

/-- A string that is cut off takes less room. -/
theorem map_cString_of_size {words : List CharString} (same : size words ≤ size (words.map cString)) :
    words.map cString = words ∧ ∀ word ∈ words, 0 ∉ word := by
  induction words with
  | nil => exact ⟨rfl, nofun⟩
  | cons word rest ih =>
    have shorter := cString_length_le word
    have fewer := size_cString_le rest
    rw [List.map_cons, size_cons, size_cons] at same
    have whole : cString word = word :=
      (List.takeWhile_prefix _).eq_of_length_le (show word.length ≤ (cString word).length by omega)
    obtain ⟨others, free⟩ := ih (by omega)
    rw [List.map_cons, whole, others]
    exact ⟨rfl, List.forall_mem_cons.mpr ⟨cString_eq_self.mp whole, free⟩⟩

/-- The pieces of a line take as much room as the line. -/
theorem size_pieces (quoted : Bool) (line : List UInt8) : size (pieces quoteSign spaceSign quoted line) = line.length + 1 := by
  induction line generalizing quoted with
  | nil => rfl
  | cons code rest ih =>
    have behind := ih (mode quoteSign quoted code)
    rw [pieces, List.length_cons]
    split
    · rw [size_cons, behind]
      exact Nat.add_comm ..
    · obtain ⟨piece, others, cut⟩ := List.exists_cons_of_ne_nil (pieces_ne_nil (mode quoteSign quoted code) rest)
      rw [cut] at behind ⊢
      rw [List.modifyHead_cons, size_cons, List.length_cons]
      rw [size_cons] at behind
      omega

theorem size_words_le (pieces : List (List UInt8)) : size (words pieces) ≤ size pieces := by
  induction pieces with
  | nil => exact Nat.le_refl _
  | cons piece rest ih =>
    rw [size_cons]
    by_cases filled : piece = []
    · rw [filled, words_cons_nil]
      omega
    · rw [words_cons filled, size_cons]
      omega

theorem makeEntry_length_le {word value : List UInt8} (made : makeEntry word = some value) : value.length ≤ word.length := by
  unfold makeEntry at made
  split at made
  · split at made
    · cases made
    · cases made
      refine (replaceAll_length_le _).trans ?_
      rw [List.length_dropLast, List.length_tail]
      omega
  · cases made
    exact replaceAll_length_le word

theorem size_mapM_le {entries args : List (List UInt8)} (made : (entries.map makeEntry).mapM id = some args) :
    size args ≤ size entries := by
  induction entries generalizing args with
  | nil =>
    cases made
    exact Nat.le_refl _
  | cons word rest ih =>
    rw [List.map_cons, List.mapM_cons] at made
    obtain ⟨value, first, made⟩ := Option.bind_eq_some_iff.mp made
    obtain ⟨others, later, made⟩ := Option.bind_eq_some_iff.mp made
    cases made
    have shorter := makeEntry_length_le first
    have fewer := ih later
    rw [size_cons, size_cons]
    omega

/-- What build_args makes of a line takes no more room than the line as one word. -/
theorem size_buildArgs_le {line : List UInt8} {args : List CharString} (built : buildArgs line = some args) :
    size args ≤ size (words [line]) := by
  rw [buildArgs_eq] at built
  have fewer := size_mapM_le built
  by_cases filled : line = []
  · rw [filled] at fewer ⊢
    exact fewer
  · rw [words_cons filled, size_cons]
    exact fewer.trans ((size_words_le _).trans (Nat.le_of_eq (size_pieces false line)))

/-- The program is taken for what it is, or as a command that is one word. -/
def ExeBuilder.Literal (builder : ExeBuilder) : Prop :=
  builder.notCmd = true ∨ builder.args ≠ [] ∨ buildArgs builder.exe = some builder.words

theorem makeCmd_cases {builder : ExeBuilder} {init : ExeCmdInit} (plain : builder.shell = false)
    (initializer : builder.getInitializer = some init) :
    ((builder.notCmd = true ∨ builder.args ≠ []) ∧ init.makeCmd = builder.words) ∨
      (¬ (builder.notCmd = true ∨ builder.args ≠ []) ∧ buildArgs builder.exe = some init.makeCmd ∧
        builder.words = words [builder.exe]) := by
  rw [ExeBuilder.getInitializer, plain] at initializer
  split at initializer
  · cases initializer
    exact .inl ⟨‹_›, rfl⟩
  · obtain ⟨args, built, rfl⟩ := Option.map_eq_some_iff.mp initializer
    refine .inr ⟨‹_›, built, ?_⟩
    have bare : builder.args = [] := not_not.mp fun filled => ‹¬ (builder.notCmd = true ∨ builder.args ≠ [])› (Or.inr filled)
    rw [ExeBuilder.words, bare]
    by_cases unnamed : builder.exe = [] <;> simp [words, unnamed]

theorem makeCmd_size_le {builder : ExeBuilder} {init : ExeCmdInit} (plain : builder.shell = false)
    (initializer : builder.getInitializer = some init) : size init.makeCmd ≤ size builder.words := by
  obtain ⟨-, same⟩ | ⟨-, built, same⟩ := makeCmd_cases plain initializer
  · exact Nat.le_of_eq (congrArg size same)
  · rw [same]
    exact size_buildArgs_le built

/-- The program gets the words of the builder. -/
theorem makeCmd_perm_iff {builder : ExeBuilder} {init : ExeCmdInit} (plain : builder.shell = false)
    (initializer : builder.getInitializer = some init) :
    (init.makeCmd.Perm builder.words ↔ builder.Literal) ∧ (init.makeCmd.Perm builder.words → init.makeCmd = builder.words) := by
  obtain ⟨literal, same⟩ | ⟨command, built, same⟩ := makeCmd_cases plain initializer
  · exact ⟨iff_of_true (same ▸ .refl _) (literal.imp_right .inl), fun _ => same⟩
  · have equal (perm : init.makeCmd.Perm builder.words) : init.makeCmd = builder.words := by
      by_cases unnamed : builder.exe = []
      · rw [unnamed, words_cons_nil] at same
        rw [same] at perm ⊢
        exact perm.eq_nil
      · rw [words_cons unnamed] at same
        rw [same] at perm ⊢
        exact List.perm_singleton.mp perm
    refine ⟨⟨fun perm => .inr (.inr (built.trans (congrArg some (equal perm)))), fun literal => ?_⟩, equal⟩
    have whole := (literal.resolve_left fun named => command (.inl named)).resolve_left fun filled => command (.inr filled)
    rw [Option.some.inj (built.symm.trans whole)]

theorem foldl_shell {given : List Given} (plain : .shell ∉ given) (builder : ExeBuilder) :
    (given.foldl ExeBuilder.add builder).shell = builder.shell := by
  induction given generalizing builder with
  | nil => rfl
  | cons first rest ih =>
    rw [List.mem_cons, not_or] at plain
    rw [List.foldl_cons, ih plain.2]
    cases first with
    | path native => simp only [ExeBuilder.add, ExeBuilder.addText]; split <;> rfl
    | text data => simp only [ExeBuilder.add, ExeBuilder.addText]; split <;> rfl
    | texts data =>
      cases data with
      | nil => rfl
      | cons => simp only [ExeBuilder.add, ExeBuilder.addTexts]; split <;> rfl
    | shell => exact absurd rfl plain.1
    | _ => rfl

theorem tail_words (builder : ExeBuilder) : builder.words.tail.Sublist builder.args := by
  by_cases unnamed : builder.exe = []
  · rw [builder.words_unnamed unnamed]
    exact List.tail_sublist _
  · rw [builder.words_named unnamed]
    exact List.Sublist.refl _

theorem file_eq {builder : ExeBuilder} {init : ExeCmdInit} (plain : builder.shell = false)
    (initializer : builder.getInitializer = some init) (executable : CharString → Bool) (environ : Option (List CharString)) :
    init.file executable environ =
      (if builder.exe ≠ [] ∧ (builder.notCmd = true ∨ builder.args ≠ []) then id else prepareCmdStyle executable environ)
        ((init.makeCmd.map cString).headD []) := by
  have unnamed (args : List CharString) : (⟨[], args⟩ : ExeCmdInit).file executable environ =
      prepareCmdStyle executable environ (((⟨[], args⟩ : ExeCmdInit).makeCmd.map cString).headD []) := by
    cases args <;> rfl
  rw [ExeBuilder.getInitializer, plain] at initializer
  split at initializer
  · cases initializer
    cases named : builder.exe with
    | nil =>
      rw [if_neg fun both => absurd rfl both.1]
      exact unnamed builder.args
    | cons code rest =>
      rw [if_pos ⟨List.cons_ne_nil code rest, ‹_›⟩]
      rfl
  · obtain ⟨args, -, rfl⟩ := Option.map_eq_some_iff.mp initializer
    rw [if_neg fun both => ‹¬ (builder.notCmd = true ∨ builder.args ≠ [])› both.2]
    exact unnamed args

/-- Without a shell, the program gets the words that the caller gave, in their order, exactly if none was replaced and none is
empty where the program is to be named, none has a NUL, and a program that is given alone, as a string, is one word for
build_args. It is looked for in PATH if it is given so, or has no name. -/
theorem started_iff (executable : CharString → Bool) (environ : Option (List CharString)) (given : List Given) (started : Started)
    (plain : .shell ∉ given) (launched : start executable environ given = some started) :
    ((started.argv.Perm (given.flatMap Given.words) ∧ started.argv.tail.Sublist (given.flatMap Given.words)) ↔
        Admits ExeBuilder.step ExeBuilder.Keeps {} given ∧ (given.foldl ExeBuilder.add {}).Literal ∧
          ∀ word ∈ given.flatMap Given.words, 0 ∉ word) ∧
      started.file =
        (if (given.foldl ExeBuilder.add {}).exe ≠ [] ∧
            ((given.foldl ExeBuilder.add {}).notCmd = true ∨ (given.foldl ExeBuilder.add {}).args ≠ []) then id
          else prepareCmdStyle executable environ) (started.argv.headD []) := by
  have unshelled := foldl_shell plain {}
  have fewer := ExeBuilder.foldl_size_le {} given
  obtain ⟨init, initializer, rfl⟩ := Option.map_eq_some_iff.mp launched
  have less := makeCmd_size_le unshelled initializer
  have cut := size_cString_le init.makeCmd
  obtain ⟨literal, equal⟩ := makeCmd_perm_iff unshelled initializer
  refine ⟨⟨fun ⟨perm, _⟩ => ?_, fun ⟨kept, one, free⟩ => ?_⟩, ?_⟩
  · have total : size (init.makeCmd.map cString) = size (given.flatMap Given.words) := size_perm perm
    rw [show size (ExeBuilder.words {}) = 0 from rfl, Nat.zero_add] at fewer
    have kept : Admits ExeBuilder.step ExeBuilder.Keeps {} given := by
      by_contra lost
      have lost := ExeBuilder.foldl_lost lost
      rw [show size (ExeBuilder.words {}) = 0 from rfl, Nat.zero_add] at lost
      omega
    obtain ⟨whole, free⟩ := map_cString_of_size (show size init.makeCmd ≤ size (init.makeCmd.map cString) by omega)
    have words := (ExeBuilder.foldl_kept kept).1
    have perm : init.makeCmd.Perm (given.flatMap Given.words) := whole ▸ perm
    refine ⟨kept, literal.mp (perm.trans words.symm), fun word member => free word (perm.mem_iff.mpr member)⟩
  · obtain ⟨words, args⟩ := ExeBuilder.foldl_kept kept
    have same := equal (literal.mpr one)
    have uncut : init.makeCmd.map cString = init.makeCmd := by
      refine (List.map_congr_left fun word member => ?_).trans (List.map_id _)
      exact cString_eq_self.mpr (free word (words.mem_iff.mp (same ▸ member)))
    refine ⟨?_, ?_⟩
    · show (init.makeCmd.map cString).Perm _
      rw [uncut, same]
      exact words
    · show (init.makeCmd.map cString).tail.Sublist _
      rw [uncut, same]
      exact (tail_words _).trans args
  · exact file_eq unshelled initializer executable environ

/-- `child("ls", args += {"a b"})` -/
def lsSpaced : List Given := [.text [108, 115], .moreArgs [[97, spaceSign, 98]]]

theorem started_iff_lsSpaced : ∃ started, start (fun _ => false) none lsSpaced = some started ∧
    started.argv.Perm (lsSpaced.flatMap Given.words) := by
  have words := (started_iff (fun _ => false) none lsSpaced _ (by decide) rfl).1
  exact ⟨_, rfl, (words.mpr ⟨by decide, .inr (.inl (by decide)), by decide⟩).1⟩

/-- The program is cut into words as soon as there is no argument behind it. -/
example : (start (fun _ => false) none [.text [97, spaceSign, 98], .args []]).map Started.argv = some [[97], [98]] := by decide

/-- exe = takes the place of a program that was given before. -/
example : (start (fun _ => false) none [.texts [[97], [98]], .exe [99]]).map Started.argv = some [[99], [98]] := by decide

end BoostProcess.V1.Posix.Command
