import BoostProcess.Library.Pieces
import Mathlib.Data.List.Infix
import Mathlib.Data.UInt

/-! The two parsers of a command line: build_cmd behind `cmd = ...` and build_args.

The iterator to the start of the current token is kept as the text from it up to the loop's
own iterator.
-/

set_option autoImplicit false

namespace BoostProcess.V1.Posix

open Pieces

def quoteSign : UInt8 := 0x22
def spaceSign : UInt8 := 0x20
def backslash : UInt8 := 0x5c

theorem spaceSign_ne_quoteSign : spaceSign ≠ quoteSign := by decide

/-! ## build_cmd -/

structure CmdScan where
  inQuotes : Bool
  /-- The text from `beg` up to `itr`. -/
  part : List UInt8
  ret : List (List UInt8)

def CmdScan.step (scan : CmdScan) (c : UInt8) : CmdScan :=
  let inQuotes := if c = quoteSign then !scan.inQuotes else scan.inQuotes
  if inQuotes = false ∧ c = spaceSign then
    if scan.part ≠ [] then ⟨inQuotes, [], scan.ret ++ [scan.part]⟩
    -- `beg` only moves on behind a token, so a second space starts the next one
    else ⟨inQuotes, [c], scan.ret⟩
  else ⟨inQuotes, scan.part ++ [c], scan.ret⟩

def CmdScan.finish (scan : CmdScan) : List (List UInt8) :=
  if scan.part ≠ [] then scan.ret ++ [scan.part] else scan.ret

def buildCmd (value : List UInt8) : List (List UInt8) :=
  (value.foldl CmdScan.step ⟨false, [], []⟩).finish

/-! ## build_args -/

/-- `boost::replace_all(data, "\\\"", "\"")` -/
def replaceAll : List UInt8 → List UInt8
  | [] => []
  | [c] => [c]
  | c :: d :: rest =>
    if c = backslash ∧ d = quoteSign then quoteSign :: replaceAll rest else c :: replaceAll (d :: rest)

/-- The first and the last character are quotes; they may be one. -/
def Enclosed (part : List UInt8) : Prop :=
  part.head? = some quoteSign ∧ part.getLast? = some quoteSign

instance (part : List UInt8) : Decidable (Enclosed part) :=
  inferInstanceAs (Decidable (_ ∧ _))

/-- `make_entry(begin, end)`; `assign(begin + 1, end - 1)` is undefined where the range is not one. -/
def makeEntry (part : List UInt8) : Option (List UInt8) :=
  if Enclosed part then
    if part.length < 2 then none else some (replaceAll part.tail.dropLast)
  else some (replaceAll part)

structure ArgScan where
  inQuote : Bool
  /-- The text from `part_beg` up to `itr`. -/
  part : List UInt8
  /-- `*(itr - 1)`, unless `itr` is at the beginning. -/
  previous : Option UInt8
  st : List (Option (List UInt8))

def ArgScan.step (scan : ArgScan) (c : UInt8) : ArgScan :=
  let inQuote := if c = quoteSign then !scan.inQuote else scan.inQuote
  if inQuote = false ∧ c = spaceSign then
    ⟨inQuote, [], some c,
      if scan.previous ≠ none ∧ scan.previous ≠ some spaceSign then scan.st ++ [makeEntry scan.part] else scan.st⟩
  else ⟨inQuote, scan.part ++ [c], some c, scan.st⟩

def ArgScan.finish (scan : ArgScan) : List (Option (List UInt8)) :=
  if scan.part ≠ [] then scan.st ++ [makeEntry scan.part] else scan.st

/-- No result where one of the entries is undefined. -/
def buildArgs (data : List UInt8) : Option (List (List UInt8)) :=
  (data.foldl ArgScan.step ⟨false, [], none, []⟩).finish.mapM id

/-- The same loop with the ranges it gives to make_entry, instead of what that returns: `entries` makes
an ArgScan of it, in each of its states. -/
structure RangeScan where
  inQuote : Bool
  part : List UInt8
  previous : Option UInt8
  ranges : List (List UInt8)

def RangeScan.step (scan : RangeScan) (c : UInt8) : RangeScan :=
  let inQuote := if c = quoteSign then !scan.inQuote else scan.inQuote
  if inQuote = false ∧ c = spaceSign then
    ⟨inQuote, [], some c,
      if scan.previous ≠ none ∧ scan.previous ≠ some spaceSign then scan.ranges ++ [scan.part] else scan.ranges⟩
  else ⟨inQuote, scan.part ++ [c], some c, scan.ranges⟩

def RangeScan.finish (scan : RangeScan) : List (List UInt8) :=
  if scan.part ≠ [] then scan.ranges ++ [scan.part] else scan.ranges

def entryRanges (data : List UInt8) : List (List UInt8) :=
  (data.foldl RangeScan.step ⟨false, [], none, []⟩).finish

def RangeScan.entries (scan : RangeScan) : ArgScan :=
  ⟨scan.inQuote, scan.part, scan.previous, scan.ranges.map makeEntry⟩

theorem RangeScan.entries_step (scan : RangeScan) (c : UInt8) : (scan.step c).entries = scan.entries.step c := by
  by_cases here : mode quoteSign scan.inQuote c = false ∧ c = spaceSign
  · rw [show scan.step c = _ from if_pos here, show scan.entries.step c = _ from if_pos here]
    by_cases ends : scan.previous ≠ none ∧ scan.previous ≠ some spaceSign <;>
      simp [RangeScan.entries, ends]
  · rw [show scan.step c = _ from if_neg here, show scan.entries.step c = _ from if_neg here]
    rfl

theorem RangeScan.entries_foldl (scan : RangeScan) (data : List UInt8) :
    (data.foldl RangeScan.step scan).entries = data.foldl ArgScan.step scan.entries := by
  induction data generalizing scan with
  | nil => rfl
  | cons c rest ih => rw [List.foldl_cons, ih, entries_step, List.foldl_cons]

theorem RangeScan.entries_finish (scan : RangeScan) : scan.entries.finish = scan.finish.map makeEntry := by
  unfold ArgScan.finish RangeScan.finish RangeScan.entries
  simp only
  split
  · rw [List.map_append, List.map_singleton]
  · rfl

theorem buildArgs_eq_mapM_entryRanges (data : List UInt8) :
    buildArgs data = ((entryRanges data).map makeEntry).mapM id := by
  have same := RangeScan.entries_foldl ⟨false, [], none, []⟩ data
  unfold buildArgs entryRanges
  rw [← RangeScan.entries_finish, same]
  rfl

/-! ## The words of a command line -/

/-- The pieces between the spaces outside quotes. -/
def linePieces (line : List UInt8) : List (List UInt8) := pieces quoteSign spaceSign false line

def lineWords (line : List UInt8) : List (List UInt8) := words (linePieces line)

/-- A word without its enclosing pair of quotes. -/
def unquote (word : List UInt8) : List UInt8 :=
  if 2 ≤ word.length ∧ Enclosed word then word.tail.dropLast else word

theorem unquote_length_le (word : List UInt8) : (unquote word).length ≤ word.length := by
  unfold unquote
  split
  · simp only [List.length_dropLast, List.length_tail]
    omega
  · exact Nat.le_refl _

theorem unquote_eq_self {word : List UInt8} (filled : word ≠ []) :
    unquote word = word ↔ ¬ (2 ≤ word.length ∧ Enclosed word) := by
  constructor
  · intro same enclosed
    have shorter : (unquote word).length = word.length - 1 - 1 := by
      rw [unquote, if_pos enclosed, List.length_dropLast, List.length_tail]
    rw [same] at shorter
    have := List.length_pos_of_ne_nil filled
    omega
  · intro plain
    rw [unquote, if_neg plain]

/-- What build_cmd makes of the pieces: an empty one that is not the last puts a space in
front of the next. -/
def merged : List (List UInt8) → List (List UInt8)
  | [] => []
  | [piece] => words [piece]
  | piece :: next :: rest =>
    if piece = [] then merged ((spaceSign :: next) :: rest) else piece :: merged (next :: rest)
  termination_by pieces => pieces.length

theorem buildCmd_scan (scan : CmdScan) (value : List UInt8) :
    (value.foldl CmdScan.step scan).finish =
      scan.ret ++ merged ((pieces quoteSign spaceSign scan.inQuotes value).modifyHead (scan.part ++ ·)) := by
  induction value generalizing scan with
  | nil =>
    by_cases filled : scan.part = [] <;>
      simp [CmdScan.finish, pieces, merged, words, filled]
  | cons c rest ih =>
    rw [List.foldl_cons, ih]
    by_cases here : mode quoteSign scan.inQuotes c = false ∧ c = spaceSign
    · rw [front_separator scan.part here]
      obtain ⟨piece, others, cut⟩ := List.exists_cons_of_ne_nil (pieces_ne_nil (mode quoteSign scan.inQuotes c) rest)
      by_cases filled : scan.part = []
      · have taken : scan.step c = ⟨mode quoteSign scan.inQuotes c, [c], scan.ret⟩ :=
          (if_pos here).trans (if_neg (not_not_intro filled))
        rw [taken, cut, filled, here.2]
        simp [merged]
      · have taken : scan.step c = ⟨mode quoteSign scan.inQuotes c, [], scan.ret ++ [scan.part]⟩ :=
          (if_pos here).trans (if_pos filled)
        rw [taken, cut]
        simp [merged, filled]
    · rw [front_code scan.part here]
      have taken : scan.step c = ⟨mode quoteSign scan.inQuotes c, scan.part ++ [c], scan.ret⟩ := if_neg here
      rw [taken]

theorem buildCmd_eq (value : List UInt8) : buildCmd value = merged (linePieces value) := by
  refine (buildCmd_scan _ value).trans ?_
  exact congrArg merged (modifyHead_nil (linePieces value))

theorem merged_length_le (pieces : List (List UInt8)) : pieces.flatten.length ≤ (merged pieces).flatten.length := by
  fun_induction merged pieces with
  | case1 => exact Nat.le_refl _
  | case2 piece => rw [flatten_words]
  | case3 next rest ih =>
    simp only [List.flatten_cons, List.length_append, List.length_cons, List.length_nil] at ih ⊢
    omega
  | case4 piece next rest filled ih =>
    simp only [List.flatten_cons, List.length_append] at ih ⊢
    omega

theorem merged_length_lt {pieces : List (List UInt8)} (empty : [] ∈ pieces.dropLast) :
    pieces.flatten.length < (merged pieces).flatten.length := by
  fun_induction merged pieces with
  | case1 => cases empty
  | case2 piece => cases empty
  | case3 next rest ih =>
    have grown := merged_length_le ((spaceSign :: next) :: rest)
    simp only [List.flatten_cons, List.length_append, List.length_cons, List.length_nil] at grown ⊢
    omega
  | case4 piece next rest filled ih =>
    rw [List.dropLast_cons_cons] at empty
    have later := ih (List.mem_of_ne_of_mem (Ne.symm filled) empty)
    simp only [List.flatten_cons, List.length_append] at later ⊢
    omega

theorem merged_eq_words {pieces : List (List UInt8)} (filled : [] ∉ pieces.dropLast) : merged pieces = words pieces := by
  fun_induction merged pieces with
  | case1 => rfl
  | case2 piece => rfl
  | case3 next rest ih =>
    rw [List.dropLast_cons_cons] at filled
    exact absurd List.mem_cons_self filled
  | case4 piece next rest here ih =>
    rw [List.dropLast_cons_cons] at filled
    rw [words_cons here, ih (List.not_mem_of_not_mem_cons filled)]

/-! ## What build_args makes of the words -/

/-- What the loop keeps true of the text since the last space outside quotes. -/
structure ArgScan.Sound (scan : ArgScan) : Prop where
  started : scan.part = [] → scan.previous = none ∨ scan.previous = some spaceSign
  last : scan.part ≠ [] → scan.previous = scan.part.getLast?
  quoted : scan.part.getLast? = some spaceSign → scan.inQuote = true

/-- A space outside quotes ends a token exactly when there is text in front of it. -/
theorem ArgScan.Sound.ends {scan : ArgScan} (sound : scan.Sound) {c : UInt8}
    (here : mode quoteSign scan.inQuote c = false ∧ c = spaceSign) :
    (scan.previous ≠ none ∧ scan.previous ≠ some spaceSign) ↔ scan.part ≠ [] := by
  constructor
  · intro ends empty
    rcases sound.started empty with start | space
    · exact ends.1 start
    · exact ends.2 space
  · intro filled
    rw [sound.last filled]
    refine ⟨by simp [filled], fun space => ?_⟩
    -- a space in front would be quoted, and this one as well
    have quoted := sound.quoted space
    obtain ⟨outside, rfl⟩ := here
    simp [mode, quoted, spaceSign, quoteSign] at outside

theorem entryRanges_scan {scan : RangeScan} (sound : scan.entries.Sound) (data : List UInt8) :
    (data.foldl RangeScan.step scan).finish =
      scan.ranges ++ words ((pieces quoteSign spaceSign scan.inQuote data).modifyHead (scan.part ++ ·)) := by
  induction data generalizing scan with
  | nil =>
    by_cases filled : scan.part = [] <;> simp [RangeScan.finish, pieces, words, filled]
  | cons c rest ih =>
    rw [List.foldl_cons]
    by_cases here : mode quoteSign scan.inQuote c = false ∧ c = spaceSign
    · have next : (scan.step c).entries.Sound := by
        rw [show scan.step c = _ from if_pos here]
        exact ⟨fun _ => .inr (by rw [here.2]; rfl), fun filled => absurd rfl filled, by simp [RangeScan.entries]⟩
      rw [ih next, front_separator scan.part here, show scan.step c = _ from if_pos here]
      change (if _ then _ else _) ++ words ((pieces quoteSign spaceSign (mode quoteSign scan.inQuote c) rest).modifyHead
        (([] : List UInt8) ++ ·)) = _
      have ends : (scan.previous ≠ none ∧ scan.previous ≠ some spaceSign) ↔ scan.part ≠ [] := sound.ends here
      rw [modifyHead_nil]
      by_cases filled : scan.part = []
      · rw [if_neg (by rw [ends]; exact not_not_intro filled), filled, words_cons_nil]
      · rw [if_pos (ends.mpr filled), words_cons filled, List.append_assoc]
        rfl
    · have next : (scan.step c).entries.Sound := by
        rw [show scan.step c = _ from if_neg here]
        refine ⟨fun empty => absurd empty (by simp [RangeScan.entries]), fun _ => by simp [RangeScan.entries],
          fun space => ?_⟩
        have space : c = spaceSign := by simpa [RangeScan.entries] using space
        exact Bool.eq_true_of_not_eq_false fun outside => here ⟨outside, space⟩
      rw [ih next, front_code scan.part here, show scan.step c = _ from if_neg here]
      rfl

/-- The ranges are the words of the line. -/
theorem entryRanges_eq (data : List UInt8) : entryRanges data = lineWords data := by
  have start : (RangeScan.entries ⟨false, [], none, []⟩).Sound :=
    ⟨fun _ => .inl rfl, fun filled => absurd rfl filled, nofun⟩
  unfold entryRanges lineWords
  rw [entryRanges_scan start data, modifyHead_nil]
  rfl

theorem mapM_id_iff {entries : List (List UInt8)} {entry : List UInt8 → Option (List UInt8)}
    {value : List UInt8 → List UInt8} :
    (entries.map entry).mapM id = some (entries.map value) ↔ ∀ part ∈ entries, entry part = some (value part) := by
  induction entries with
  | nil => simp
  | cons part rest ih =>
    rw [List.forall_mem_cons, ← ih, List.map_cons, List.map_cons, List.mapM_cons]
    cases entry part with
    | none => simp
    | some taken => cases (rest.map entry).mapM id <;> simp

theorem buildArgs_eq (data : List UInt8) : buildArgs data = ((lineWords data).map makeEntry).mapM id := by
  rw [buildArgs_eq_mapM_entryRanges, entryRanges_eq]

theorem replaceAll_length_le (data : List UInt8) : (replaceAll data).length ≤ data.length := by
  fun_induction replaceAll data with
  | case1 => exact Nat.le_refl _
  | case2 c => exact Nat.le_refl _
  | case3 c d rest escaped ih =>
    simp only [List.length_cons] at ih ⊢
    omega
  | case4 c d rest plain ih =>
    simp only [List.length_cons] at ih ⊢
    omega

/-- Every replacement makes the text shorter. -/
theorem replaceAll_eq_self {data : List UInt8} : replaceAll data = data ↔ ¬ [backslash, quoteSign] <:+: data := by
  fun_induction replaceAll data with
  | case1 => simp
  | case2 c => simp [List.infix_cons_iff]
  | case3 c d rest escaped ih =>
    have shorter := replaceAll_length_le rest
    have found : [backslash, quoteSign] <:+: c :: d :: rest := ⟨[], rest, by rw [escaped.1, escaped.2]; rfl⟩
    simp only [found, not_true_eq_false, iff_false]
    intro same
    have := congrArg List.length same
    simp only [List.length_cons] at this
    omega
  | case4 c d rest plain ih =>
    have here : ¬ [backslash, quoteSign] <+: c :: d :: rest := by
      simp only [List.cons_prefix_cons, List.nil_prefix, and_true]
      rintro ⟨rfl, rfl⟩
      exact plain ⟨rfl, rfl⟩
    have tail : [backslash, quoteSign] <:+: c :: d :: rest ↔ [backslash, quoteSign] <:+: d :: rest := by
      rw [List.infix_cons_iff]
      exact or_iff_right here
    rw [List.cons_eq_cons, ih, tail]
    exact and_iff_right rfl

/-- build_args takes a word for what it is without its quotes, unless the word is a single
quote or has an escaped one. -/
theorem makeEntry_eq_some_iff {word : List UInt8} (plain : ¬ (2 ≤ word.length ∧ Enclosed word)) :
    makeEntry word = some word ↔ ¬ Enclosed word ∧ ¬ [backslash, quoteSign] <:+: word := by
  unfold makeEntry
  by_cases enclosed : Enclosed word
  · have short : word.length < 2 := by
      by_contra long
      exact plain ⟨by omega, enclosed⟩
    simp [enclosed, short]
  · rw [if_neg enclosed, Option.some.injEq, replaceAll_eq_self]
    simp [enclosed]

/-! ## Where the parsers agree -/

/-- No space outside quotes is the first character or follows another one, no word begins and
ends with a quote, and no word has a quote behind a backslash. -/
def Plain (line : List UInt8) : Prop :=
  [] ∉ (linePieces line).dropLast ∧
    ∀ word ∈ lineWords line, ¬ Enclosed word ∧ ¬ [backslash, quoteSign] <:+: word

/-- A token of build_cmd has all characters of its piece, so it is no shorter than a word
without its quotes, and all have the same length only if no token has more and no word less. -/
theorem buildCmd_eq_iff (line : List UInt8) :
    buildCmd line = (lineWords line).map unquote ↔
      [] ∉ (linePieces line).dropLast ∧ ∀ word ∈ lineWords line, unquote word = word := by
  rw [buildCmd_eq]
  constructor
  · intro same
    have shrunk := @flatten_map_length _ unquote (lineWords line) unquote_length_le
    have separated : [] ∉ (linePieces line).dropLast := by
      intro empty
      have longer := merged_length_lt empty
      rw [same] at longer
      unfold lineWords at shrunk longer
      rw [flatten_words] at shrunk
      omega
    rw [merged_eq_words separated] at same
    exact ⟨separated, List.map_inj_left.mp (same.symm.trans (List.map_id _).symm)⟩
  · rintro ⟨separated, plain⟩
    rw [merged_eq_words separated]
    exact ((List.map_congr_left plain).trans (List.map_id _)).symm

/-- Both parsers produce the words of the line without their enclosing quotes exactly when
the line is plain. -/
theorem parsers_agree_iff (line : List UInt8) :
    (buildCmd line = (lineWords line).map unquote ∧ buildArgs line = some ((lineWords line).map unquote)) ↔ Plain line := by
  have filled {word : List UInt8} (member : word ∈ lineWords line) : word ≠ [] := (mem_words.mp member).2
  rw [buildCmd_eq_iff, buildArgs_eq, mapM_id_iff]
  constructor
  · rintro ⟨⟨separated, whole⟩, entries⟩
    refine ⟨separated, fun word member => ?_⟩
    have same := whole word member
    rw [← makeEntry_eq_some_iff ((unquote_eq_self (filled member)).mp same)]
    exact (entries word member).trans (congrArg some same)
  · rintro ⟨separated, plain⟩
    have whole (word : List UInt8) (member : word ∈ lineWords line) : unquote word = word :=
      (unquote_eq_self (filled member)).mpr fun enclosed => (plain word member).1 enclosed.2
    refine ⟨⟨separated, whole⟩, fun word member => ?_⟩
    rw [whole word member, makeEntry_eq_some_iff fun enclosed => (plain word member).1 enclosed.2]
    exact plain word member

/-- The line `a "b c"`: build_cmd leaves the quotes to the child. -/
theorem parsers_disagree_quoted :
    let line := "a \"b c\"".toList.map fun c => UInt8.ofNat c.toNat
    buildCmd line ≠ (lineWords line).map unquote ∧
      buildArgs line = some ((lineWords line).map unquote) := by
  decide +kernel

end BoostProcess.V1.Posix
