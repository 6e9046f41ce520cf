import BoostProcess.Library.Blocks
import BoostProcess.V1.Posix.CommandLine

/-! cmd_setter_, from whose str the other character type gets its own setter.

The scan of build_cmd is that of the command line, for any type of characters.
-/

set_option autoImplicit false

namespace BoostProcess.V1.Posix

structure CmdSetter (Char : Type) where
  /-- `_cmd_line` -/
  cmdLine : List (List Char)

namespace CmdSetter

open Blocks Pieces

/-- The characters that a command line gives a meaning to, and the one that str puts between arguments. -/
class CmdChar (Char : Type) where
  quoteSign : Char
  spaceSign : Char
  equalSign : Char
  spaceSign_ne_quoteSign : spaceSign ≠ quoteSign
  equalSign_ne_spaceSign : equalSign ≠ spaceSign

export CmdChar (quoteSign spaceSign equalSign)

instance : CmdChar UInt8 := ⟨0x22, 0x20, 0x3d, by decide, by decide⟩

/-- `wchar_t` -/
instance : CmdChar UInt32 := ⟨0x22, 0x20, 0x3d, by decide, by decide⟩

variable {Char : Type} [CmdChar Char]

/-- The state of the loop of build_cmd. For `char` it is CmdScan, which `bytes` makes of it. -/
structure Scan (Char : Type) where
  inQuotes : Bool
  /-- The text from `beg` up to `itr`. -/
  part : List Char
  ret : List (List Char)

def Scan.start : Scan Char := ⟨false, [], []⟩

def Scan.finish (scan : Scan Char) : List (List Char) :=
  if scan.part = [] then scan.ret else scan.ret ++ [scan.part]

def str (setter : CmdSetter Char) : Option (List Char) :=
  let size := (setter.cmdLine.map fun cmd => cmd.length + 1).sum
  -- `reserve(size - 1)` wraps around and throws
  if size = 0 then none
  else some (setter.cmdLine.foldl (fun ret cmd => (if ret = [] then ret else ret ++ [equalSign]) ++ cmd) [])

section
variable [DecidableEq Char]

def Scan.step (scan : Scan Char) (c : Char) : Scan Char :=
  let inQuotes := if c = quoteSign then !scan.inQuotes else scan.inQuotes
  if inQuotes = false ∧ c = spaceSign then
    -- where `itr` is at `beg`, `beg` stays and the space begins the next argument
    if scan.part = [] then ⟨inQuotes, [c], scan.ret⟩ else ⟨inQuotes, [], scan.ret ++ [scan.part]⟩
  else ⟨inQuotes, scan.part ++ [c], scan.ret⟩

def scan (value : List Char) : Scan Char := value.foldl Scan.step .start

def buildCmd (value : List Char) : List (List Char) := (scan value).finish

/-- `cmd_setter_(cmd_line)` -/
def ofLine (s : List Char) : CmdSetter Char := ⟨buildCmd s⟩

/-- Every space but a first and a last character is inside quotes. -/
def OneWord (s : List Char) : Prop :=
  s ≠ [] ∧ ∀ front rest, s.dropLast = front ++ spaceSign :: rest → front ≠ [] → front.count quoteSign % 2 = 1

/-! ## The scan -/

@[simp] theorem scan_concat (value : List Char) (c : Char) : scan (value ++ [c]) = (scan value).step c := by
  unfold scan
  rw [List.foldl_append]
  rfl

/-- A space outside quotes with text in front of it since the last one. -/
def Splits (scan : Scan Char) (c : Char) : Prop :=
  mode quoteSign scan.inQuotes c = false ∧ c = spaceSign ∧ scan.part ≠ []

theorem step_splits {scan : Scan Char} {c : Char} (splits : Splits scan c) :
    scan.step c = ⟨mode quoteSign scan.inQuotes c, [], scan.ret ++ [scan.part]⟩ := by
  have here : mode quoteSign scan.inQuotes c = false ∧ c = spaceSign := ⟨splits.1, splits.2.1⟩
  exact (if_pos here).trans (if_neg splits.2.2)

theorem step_grows {scan : Scan Char} {c : Char} (grows : ¬ Splits scan c) :
    scan.step c = ⟨mode quoteSign scan.inQuotes c, scan.part ++ [c], scan.ret⟩ := by
  by_cases here : mode quoteSign scan.inQuotes c = false ∧ c = spaceSign
  · have start : scan.part = [] := by
      by_contra filled
      exact grows ⟨here.1, here.2, filled⟩
    rw [start]
    exact (if_pos here).trans (if_pos start)
  · exact if_neg here

theorem scan_inQuotes (value : List Char) : (scan value).inQuotes = modeAfter quoteSign false value := by
  induction value using List.reverseRecOn with
  | nil => rfl
  | append_singleton value c ih =>
    rw [scan_concat, modeAfter_append, ← ih]
    by_cases splits : Splits (scan value) c
    · rw [step_splits splits]
      rfl
    · rw [step_grows splits]
      rfl

/-- The scan takes nothing out of the text but the spaces at which it splits. -/
theorem scan_text (value : List Char) : value = terminated spaceSign (scan value).ret ++ (scan value).part := by
  induction value using List.reverseRecOn with
  | nil => rfl
  | append_singleton value c ih =>
    rw [scan_concat]
    by_cases splits : Splits (scan value) c
    · rw [step_splits splits, splits.2.1, terminated_append, terminated_cons]
      nth_rewrite 1 [ih]
      simp
    · rw [step_grows splits]
      nth_rewrite 1 [ih]
      exact List.append_assoc _ _ _

theorem part_of_ret_nil {value : List Char} (unsplit : (scan value).ret = []) : (scan value).part = value := by
  have text := scan_text value
  rw [unsplit] at text
  exact text.symm

/-- The first split is at the first space that is outside quotes and not the first character. -/
theorem ret_eq_nil_iff (value : List Char) :
    (scan value).ret = [] ↔ ∀ front rest, value = front ++ spaceSign :: rest → front ≠ [] → front.count quoteSign % 2 = 1 := by
  induction value using List.reverseRecOn with
  | nil => exact iff_of_true rfl fun front rest same => by simp at same
  | append_singleton value c ih =>
    constructor
    · intro unsplit front rest same filled
      by_cases splits : Splits (scan value) c
      · rw [scan_concat, step_splits splits] at unsplit
        simp at unsplit
      rw [scan_concat, step_grows splits] at unsplit
      cases rest using List.reverseRecOn with
      | nil =>
        obtain ⟨rfl, last⟩ := List.append_inj' same rfl
        obtain rfl := List.singleton_inj.mp last
        by_contra even
        have outside : modeAfter quoteSign false value = false := (modeAfter_eq_iff false value).mpr (by omega)
        apply splits
        refine ⟨?_, rfl, (part_of_ret_nil unsplit).symm ▸ filled⟩
        rw [scan_inQuotes, outside, mode_of_ne CmdChar.spaceSign_ne_quoteSign]
      | append_singleton rest last =>
        rw [← List.cons_append, ← List.append_assoc] at same
        exact ih.mp unsplit front rest (List.append_inj' same rfl).1 filled
    · intro quoted
      have unsplit : (scan value).ret = [] := by
        apply ih.mpr
        intro front rest same filled
        exact quoted front (rest ++ [c]) (by rw [same]; simp) filled
      have grows : ¬ Splits (scan value) c := by
        intro splits
        obtain ⟨outside, rfl, filled⟩ := splits
        rw [part_of_ret_nil unsplit] at filled
        have odd := quoted value [] rfl filled
        rw [scan_inQuotes, mode_of_ne CmdChar.spaceSign_ne_quoteSign, modeAfter_eq_iff] at outside
        omega
      rw [scan_concat, step_grows grows]
      exact unsplit

def Scan.bytes (scan : Scan UInt8) : CmdScan := ⟨scan.inQuotes, scan.part, scan.ret⟩

theorem bytes_step (scan : Scan UInt8) (c : UInt8) : (scan.step c).bytes = scan.bytes.step c := by
  by_cases here : mode Posix.quoteSign scan.inQuotes c = false ∧ c = Posix.spaceSign
  · rw [show scan.step c = _ from if_pos here, show scan.bytes.step c = _ from if_pos here]
    by_cases start : scan.part = []
    · simp only [Scan.bytes, start, ne_eq, not_true_eq_false, if_true, if_false]
      rfl
    · simp only [Scan.bytes, start, ne_eq, not_false_eq_true, if_true, if_false]
      rfl
  · rw [show scan.step c = _ from if_neg here, show scan.bytes.step c = _ from if_neg here]
    rfl

/-- On bytes this is the scan that the command line of a process goes through. -/
theorem buildCmd_bytes (value : List UInt8) : buildCmd value = Posix.buildCmd value := by
  have general (state : Scan UInt8) : (value.foldl Scan.step state).bytes = value.foldl CmdScan.step state.bytes := by
    induction value generalizing state with
    | nil => rfl
    | cons c rest ih => rw [List.foldl_cons, ih, bytes_step, List.foldl_cons]
  have finish (state : Scan UInt8) : state.finish = state.bytes.finish :=
    (ite_not (state.part = []) (state.ret ++ [state.part]) state.ret).symm
  unfold buildCmd scan Posix.buildCmd
  rw [finish, general]
  rfl

/-! ## How many arguments there are -/

/-- Whatever the last character is, it does not begin another argument. -/
theorem buildCmd_of_ret_nil {value : List Char} (c : Char) (unsplit : (scan value).ret = []) :
    ∃ word, buildCmd (value ++ [c]) = [word] ∧ buildCmd word = [word] := by
  have text := part_of_ret_nil unsplit
  by_cases splits : Splits (scan value) c
  · have alone : buildCmd value = [value] := by
      have filled := splits.2.2
      unfold buildCmd Scan.finish
      rw [if_neg filled, unsplit, text]
      rfl
    refine ⟨value, ?_, alone⟩
    unfold buildCmd Scan.finish
    rw [scan_concat, step_splits splits, unsplit, text]
    rfl
  · have alone : buildCmd (value ++ [c]) = [value ++ [c]] := by
      unfold buildCmd Scan.finish
      rw [scan_concat, step_grows splits, unsplit, text]
      simp
    exact ⟨value ++ [c], alone, alone⟩

theorem two_le_length {value : List Char} (c : Char) (split : (scan value).ret ≠ []) : 2 ≤ (buildCmd (value ++ [c])).length := by
  have first := List.length_pos_of_ne_nil split
  unfold buildCmd Scan.finish
  rw [scan_concat]
  by_cases splits : Splits (scan value) c
  · rw [step_splits splits, if_pos rfl, List.length_append, List.length_singleton]
    omega
  · have filled : (scan value).part ++ [c] ≠ [] := by simp
    rw [step_grows splits]
    dsimp only
    rw [if_neg filled, List.length_append, List.length_singleton]
    omega

theorem mem_ret_ne_nil {value word : List Char} (member : word ∈ (scan value).ret) : word ≠ [] := by
  induction value using List.reverseRecOn with
  | nil => cases member
  | append_singleton value c ih =>
    rw [scan_concat] at member
    by_cases splits : Splits (scan value) c
    · rw [step_splits splits] at member
      cases List.mem_append.mp member with
      | inl earlier => exact ih earlier
      | inr last => exact List.mem_singleton.mp last ▸ splits.2.2
    · rw [step_grows splits] at member
      exact ih member

theorem mem_buildCmd_ne_nil {value word : List Char} (member : word ∈ buildCmd value) : word ≠ [] := by
  unfold buildCmd Scan.finish at member
  split at member
  · exact mem_ret_ne_nil member
  · rename_i filled
    cases List.mem_append.mp member with
    | inl earlier => exact mem_ret_ne_nil earlier
    | inr last => exact List.mem_singleton.mp last ▸ filled

/-- Where there is a second argument, a space stands behind the first one. -/
theorem text_of_two {value first second : List Char} {rest : List (List Char)}
    (built : buildCmd value = first :: second :: rest) : ∃ behind, value = first ++ spaceSign :: behind := by
  have head : ∃ others, (scan value).ret = first :: others := by
    unfold buildCmd Scan.finish at built
    split at built
    · exact ⟨_, built⟩
    · cases ret : (scan value).ret with
      | nil => simp [ret] at built
      | cons other others =>
        rw [ret] at built
        exact ⟨others, by rw [(List.cons.inj built).1]⟩
  obtain ⟨others, ret⟩ := head
  have text := scan_text value
  rw [ret, terminated_cons, List.append_assoc, List.cons_append] at text
  exact ⟨_, text⟩

end

/-! ## What str makes of the arguments -/

theorem str_singleton (word : List Char) : (⟨[word]⟩ : CmdSetter Char).str = some word := by
  simp [str]

theorem foldl_behind (ret : List Char) (words : List (List Char)) :
    ∃ behind, words.foldl (fun ret cmd => (if ret = [] then ret else ret ++ [equalSign]) ++ cmd) ret = ret ++ behind := by
  induction words generalizing ret with
  | nil => exact ⟨[], (List.append_nil ret).symm⟩
  | cons word rest ih =>
    obtain ⟨behind, whole⟩ := ih ((if ret = [] then ret else ret ++ [equalSign]) ++ word)
    rw [List.foldl_cons, whole]
    by_cases empty : ret = [] <;> simp [empty]

/-- Between two arguments there is an equal sign. -/
theorem str_cons_cons {first : List Char} (filled : first ≠ []) (second : List Char) (rest : List (List Char)) :
    ∃ behind, (⟨first :: second :: rest⟩ : CmdSetter Char).str = some (first ++ equalSign :: behind) := by
  obtain ⟨behind, whole⟩ := foldl_behind (first ++ [equalSign] ++ second) rest
  refine ⟨second ++ behind, ?_⟩
  have start : (if ([] : List Char) = [] then ([] : List Char) else [] ++ [equalSign]) ++ first = first := rfl
  unfold str
  dsimp only
  rw [if_neg (by simp), List.foldl_cons, start, List.foldl_cons, if_neg filled, whole]
  simp

/-- str is the command line again, for build_cmd, if there is one argument, and never otherwise:
no space is left between two arguments, and the buffer for none has a negative size. -/
theorem str_roundtrip_iff [DecidableEq Char] (s : List Char) :
    (∃ text, (ofLine s).str = some text ∧ buildCmd text = buildCmd s) ↔ OneWord s := by
  cases s using List.reverseRecOn with
  | nil =>
    apply iff_of_false
    · intro rebuilt
      obtain ⟨text, built, -⟩ := rebuilt
      cases built
    · exact fun word => word.1 rfl
  | append_singleton value c =>
    have condition : OneWord (value ++ [c]) ↔ (scan value).ret = [] := by
      unfold OneWord
      rw [List.dropLast_concat, ret_eq_nil_iff]
      exact and_iff_right (by simp)
    rw [condition]
    constructor
    · intro rebuilt
      obtain ⟨text, built, same⟩ := rebuilt
      by_contra split
      cases words : buildCmd (value ++ [c]) with
      | nil => exact absurd (words ▸ two_le_length c split) (by simp)
      | cons first rest =>
        cases rest with
        | nil => exact absurd (words ▸ two_le_length c split) (by simp)
        | cons second rest =>
          rw [words] at same
          unfold ofLine at built
          obtain ⟨_, spaced⟩ := text_of_two same
          obtain ⟨_, joined⟩ := str_cons_cons (mem_buildCmd_ne_nil (words ▸ List.mem_cons_self)) second rest
          rw [words, joined, spaced, Option.some_inj] at built
          have signs := (List.cons.inj (List.append_cancel_left built)).1
          exact CmdChar.equalSign_ne_spaceSign signs
    · intro unsplit
      obtain ⟨word, alone, again⟩ := buildCmd_of_ret_nil c unsplit
      refine ⟨word, ?_, again.trans alone.symm⟩
      unfold ofLine
      rw [alone, str_singleton]

/-- The line `a b` becomes `a=b`, which is one argument. -/
theorem str_joins_with_equalSign :
    let s : List UInt8 := [0x61, 0x20, 0x62]
    buildCmd s = [[0x61], [0x62]] ∧ (ofLine s).str = some [0x61, 0x3d, 0x62] ∧
      ¬ ∃ text, (ofLine s).str = some text ∧ buildCmd text = buildCmd s := by
  refine ⟨by decide, by decide, ?_⟩
  rintro ⟨text, built, same⟩
  cases built
  revert same
  decide

end CmdSetter
end BoostProcess.V1.Posix
