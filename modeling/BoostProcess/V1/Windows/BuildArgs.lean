import BoostProcess.Library.DoubledQuotes
import Mathlib.Data.UInt

/-! build_args on Windows: one command line of an executable and its arguments. -/

set_option autoImplicit false

namespace BoostProcess.V1.Windows

open Delimited DoubledQuotes

theorem narrow_distinct : (0x20 : UInt8) ≠ 0x22 := by decide

theorem wide_distinct : (0x20 : UInt16) ≠ 0x22 := by decide

/-- The characters that `find_first_of` looks for. -/
def narrow : Signs UInt8 := ⟨0x22, 0x20, narrow_distinct⟩

/-- `wchar_t` -/
def wide : Signs UInt16 := ⟨0x22, 0x20, wide_distinct⟩

variable {Char : Type} [DecidableEq Char] (signs : Signs Char)

/-- `boost::replace_all(st, "\"", "\"\"")` -/
def replaceAll : List Char → List Char
  | [] => []
  | c :: rest => if c = signs.quote then signs.quote :: signs.quote :: replaceAll rest else c :: replaceAll rest

/-- What becomes of a string that is not empty. -/
def surround (st : List Char) : List Char :=
  if st.any fun c => c = signs.separator ∨ c = signs.quote then signs.quote :: replaceAll signs st ++ [signs.quote] else st

/-- The overloads for string and wstring are the same. -/
def buildArgs (exe : List Char) (data : List (List Char)) : List Char :=
  data.foldl
    (fun st arg =>
      let arg := if arg ≠ [] then surround signs arg else [signs.quote, signs.quote]
      (if st ≠ [] then st ++ [signs.separator] else st) ++ arg)
    (if exe ≠ [] then surround signs exe else exe)

variable {signs}

theorem replaceAll_eq_double (st : List Char) : replaceAll signs st = double signs.quote st := by
  induction st with
  | nil => rfl
  | cons c rest ih =>
    unfold replaceAll
    by_cases here : c = signs.quote
    · rw [if_pos here, ih, here, double_cons_quote]
    · rw [if_neg here, ih, double_cons here]

theorem surround_spells {st : List Char} (filled : st ≠ []) : Spelling signs st (surround signs st) := by
  unfold surround
  split
  · rw [replaceAll_eq_double]
    exact .quoted st
  · rename_i plain
    simp only [List.any_eq_true, decide_eq_true_eq, not_exists, not_and, not_or] at plain
    apply Spelling.bare filled
    · exact fun member => (plain _ member).2 rfl
    · exact fun member => (plain _ member).1 rfl

/-- How the loop writes an argument. -/
def spell (signs : Signs Char) (arg : List Char) : List Char :=
  if arg ≠ [] then surround signs arg else [signs.quote, signs.quote]

theorem spell_spells (arg : List Char) : Spelling signs arg (spell signs arg) := by
  unfold spell
  split
  · rename_i filled
    exact surround_spells filled
  · rename_i empty
    rw [not_not.mp empty]
    exact .quoted []

/-- Each argument follows behind a separator, since the line is not empty. -/
theorem foldl_args {st : List Char} (started : st ≠ []) (data : List (List Char)) :
    data.foldl (fun st arg => (if st ≠ [] then st ++ [signs.separator] else st) ++ spell signs arg) st =
      st ++ following signs.separator (data.map (spell signs)) := by
  induction data generalizing st with
  | nil => exact (List.append_nil st).symm
  | cons arg rest ih =>
    have longer : st ++ [signs.separator] ++ spell signs arg ≠ [] := by simp
    rw [List.foldl_cons, if_pos started, ih longer, List.map_cons, following_cons]
    simp

theorem buildArgs_eq {exe : List Char} (filled : exe ≠ []) (args : List (List Char)) :
    buildArgs signs exe args = [signs.separator].intercalate (surround signs exe :: args.map (spell signs)) := by
  have started := (@surround_spells _ _ signs _ filled).ne_nil
  rw [intercalate_cons, ← foldl_args started]
  unfold buildArgs
  rw [if_pos filled]
  rfl

theorem buildArgs_reads {exe : List Char} (filled : exe ≠ []) (args : List (List Char)) :
    Reads signs (buildArgs signs exe args) (exe :: args) := by
  refine ⟨surround signs exe :: args.map (spell signs), ?_, buildArgs_eq filled args⟩
  constructor
  · exact surround_spells filled
  · rw [List.forall₂_map_right_iff, List.forall₂_same]
    exact fun arg _ => spell_spells arg

/-- The line is read as the executable and its arguments and as nothing else, so no other
executable and arguments have the same line. -/
theorem buildArgs_tokens (signs : Signs Char) (exe : List Char) (args : List (List Char)) (filled : exe ≠ []) :
    (∀ tokens, Reads signs (buildArgs signs exe args) tokens ↔ tokens = exe :: args) ∧
      ∀ exe' args', exe' ≠ [] → buildArgs signs exe' args' = buildArgs signs exe args → exe' = exe ∧ args' = args := by
  have reads := @buildArgs_reads _ _ signs _ filled args
  constructor
  · intro tokens
    constructor
    · intro other
      exact other.unique reads
    · intro same
      rw [same]
      exact reads
  · intro exe' args' filled' same
    have reads' := @buildArgs_reads _ _ signs _ filled' args'
    rw [same] at reads'
    exact List.cons.inj (reads'.unique reads)

/-- The program `a b` with an empty argument and a quote: `"a b" "" """"`. -/
theorem buildArgs_tokens_quotes :
    buildArgs narrow [0x61, 0x20, 0x62] [[], [0x22]] =
        [0x22, 0x61, 0x20, 0x62, 0x22, 0x20, 0x22, 0x22, 0x20, 0x22, 0x22, 0x22, 0x22] ∧
      ∀ tokens, Reads narrow (buildArgs narrow [0x61, 0x20, 0x62] [[], [0x22]]) tokens ↔
        tokens = [[0x61, 0x20, 0x62], [], [0x22]] :=
  ⟨by decide, (buildArgs_tokens narrow [0x61, 0x20, 0x62] [[], [0x22]] (by decide)).1⟩

end BoostProcess.V1.Windows
