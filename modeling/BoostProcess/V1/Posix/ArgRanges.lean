import BoostProcess.V1.Posix.CommandLine

/-! The ranges that build_args gives to make_entry.

A range that begins and ends with a quote loses both. Where its one character is both, the
two iterators cross.
-/

set_option autoImplicit false

namespace BoostProcess.V1.Posix

open Pieces

/-- make_entry is given text only, crosses no iterators, and splits what has neither quotes nor
backslashes at its spaces. -/
structure SplitsSafely (data : List UInt8) : Prop where
  filled : ∀ range ∈ entryRanges data, range ≠ []
  ordered : ∀ range ∈ entryRanges data, Enclosed range → 2 ≤ range.length
  words : quoteSign ∉ data → backslash ∉ data →
    buildArgs data = some ((data.splitOn spaceSign).filter (· ≠ []))

/-- The last character is a quote, with nothing or a space in front of it and an even number of
quotes before. -/
def LoneQuote (data : List UInt8) : Prop :=
  ∃ front, data = front ++ [quoteSign] ∧ front.count quoteSign % 2 = 0 ∧
    (front = [] ∨ front.getLast? = some spaceSign)

theorem entryRanges_filled {data range : List UInt8} (member : range ∈ entryRanges data) : range ≠ [] := by
  rw [entryRanges_eq] at member
  exact (mem_words.mp member).2

theorem mem_entryRanges {data range : List UInt8} (filled : range ≠ []) :
    range ∈ entryRanges data ↔ range ∈ linePieces data := by
  rw [entryRanges_eq, lineWords, mem_words]
  exact and_iff_left filled

theorem quote_mem_entryRanges {data : List UInt8} : [quoteSign] ∈ entryRanges data ↔ LoneQuote data := by
  rw [mem_entryRanges (List.cons_ne_nil _ _), linePieces, quote_mem_pieces_iff spaceSign_ne_quoteSign]
  apply exists_congr
  intro front
  rw [modeAfter_eq_iff]

/-- The only range whose ends cross is a single quote. -/
theorem enclosed_short {range : List UInt8} (short : range.length < 2) : Enclosed range ↔ range = [quoteSign] := by
  match range with
  | [] => simp [Enclosed]
  | [c] => simp [Enclosed]
  | c :: d :: rest =>
    simp only [List.length_cons] at short
    omega

theorem ordered_iff {data : List UInt8} :
    (∀ range ∈ entryRanges data, Enclosed range → 2 ≤ range.length) ↔ ¬ LoneQuote data := by
  rw [← quote_mem_entryRanges]
  constructor
  · intro ordered alone
    have long := ordered [quoteSign] alone ((enclosed_short (by decide)).mpr rfl)
    exact absurd long (by decide)
  · intro absent range member enclosed
    by_contra short
    rw [enclosed_short (Nat.lt_of_not_le short)] at enclosed
    rw [enclosed] at member
    exact absent member

/-! ## Text without quotes -/

theorem makeEntry_unquoted {word : List UInt8} (unquoted : quoteSign ∉ word) : makeEntry word = some word := by
  have unclosed : ¬ Enclosed word := fun enclosed => unquoted (List.mem_of_head? enclosed.1)
  rw [makeEntry_eq_some_iff fun enclosed => unclosed enclosed.2]
  constructor
  · exact unclosed
  · intro escaped
    exact unquoted (escaped.subset (List.mem_cons_of_mem _ List.mem_cons_self))

theorem buildArgs_unquoted {data : List UInt8} (unquoted : quoteSign ∉ data) :
    buildArgs data = some ((data.splitOn spaceSign).filter (· ≠ [])) := by
  have cut : lineWords data = (data.splitOn spaceSign).filter (· ≠ []) := by
    rw [lineWords, linePieces, pieces_eq_splitOn unquoted]
    rfl
  have entries : ∀ word ∈ lineWords data, makeEntry word = some (id word) := by
    intro word member
    apply makeEntry_unquoted
    intro quoted
    exact unquoted (subset_of_mem_pieces (mem_words.mp member).1 quoted)
  rw [buildArgs_eq, mapM_id_iff.mpr entries, List.map_id, cut]

/-- build_args is safe exactly when its text does not end in a quote that stands alone. -/
theorem splitsSafely_iff (data : List UInt8) : SplitsSafely data ↔ ¬ LoneQuote data := by
  constructor
  · intro safe
    exact ordered_iff.mp safe.ordered
  · intro closed
    constructor
    case filled =>
      intro range member
      exact entryRanges_filled member
    case ordered => exact ordered_iff.mpr closed
    case words =>
      intro unquoted _
      exact buildArgs_unquoted unquoted

/-- The text `a "`: make_entry is to assign from behind the quote to in front of it. -/
theorem not_splitsSafely_quote : ¬ SplitsSafely [97, spaceSign, quoteSign] := by
  intro safe
  have long := safe.ordered [quoteSign] (by decide) (by decide)
  exact absurd long (by decide)

end BoostProcess.V1.Posix
