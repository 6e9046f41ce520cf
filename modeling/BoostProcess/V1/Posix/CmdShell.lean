import BoostProcess.Library.Delimited
import BoostProcess.V1.Posix.CommandLine

/-! The line that build_cmd_shell makes of arguments, read by build_args.

A quote of an argument is behind a backslash on the line, but build_args counts every quote
before it takes the backslashes away.
-/

set_option autoImplicit false

namespace BoostProcess.V1.Posix

open Pieces

/-- `boost::replace_all(arg, "\"", "\\\"")` -/
def escapeQuotes (arg : List UInt8) : List UInt8 :=
  arg.flatMap fun c => if c = quoteSign then [backslash, quoteSign] else [c]

/-- An argument as it is put on the line. -/
def shellEntry (arg : List UInt8) : List UInt8 :=
  let arg := escapeQuotes arg
  if spaceSign ∈ arg then quoteSign :: arg ++ [quoteSign] else arg

def buildCmdShell (exe : List UInt8) (data : List (List UInt8)) : List UInt8 :=
  data.foldl (fun st arg => (if st ≠ [] then st ++ [spaceSign] else st) ++ shellEntry arg) exe

/-- No argument but the last has an odd number of quotes, and none has a space behind an odd
number of its quotes. -/
def Balanced (args : List (List UInt8)) : Prop :=
  (∀ arg ∈ args.dropLast, arg.count quoteSign % 2 = 0) ∧
    ∀ arg ∈ args, ∀ front rest, arg = front ++ spaceSign :: rest → front.count quoteSign % 2 = 0

/-! ## Escaped quotes -/

theorem escapeQuotes_quote (rest : List UInt8) :
    escapeQuotes (quoteSign :: rest) = backslash :: quoteSign :: escapeQuotes rest := rfl

theorem escapeQuotes_cons {c : UInt8} (other : c ≠ quoteSign) (rest : List UInt8) :
    escapeQuotes (c :: rest) = c :: escapeQuotes rest := by
  unfold escapeQuotes
  rw [List.flatMap_cons, if_neg other]
  rfl

theorem escapeQuotes_head? (arg : List UInt8) : (escapeQuotes arg).head? ≠ some quoteSign := by
  cases arg with
  | nil => exact nofun
  | cons c rest =>
    by_cases here : c = quoteSign
    · rw [here, escapeQuotes_quote]
      exact fun first => absurd (Option.some.inj first) (by decide)
    · rw [escapeQuotes_cons here]
      exact fun first => here (Option.some.inj first)

theorem mode_backslash (quoted : Bool) : mode quoteSign quoted backslash = quoted :=
  mode_of_ne (by decide) quoted

theorem modeAfter_escapeQuotes (quoted : Bool) (arg : List UInt8) :
    modeAfter quoteSign quoted (escapeQuotes arg) = modeAfter quoteSign quoted arg := by
  induction arg generalizing quoted with
  | nil => rfl
  | cons c rest ih =>
    by_cases here : c = quoteSign
    · rw [here, escapeQuotes_quote, modeAfter_cons, modeAfter_cons, mode_backslash, ih, modeAfter_cons]
    · rw [escapeQuotes_cons here, modeAfter_cons, ih, modeAfter_cons]

theorem whole_escapeQuotes {quoted : Bool} {arg : List UInt8} :
    Whole quoteSign spaceSign quoted (escapeQuotes arg) ↔ Whole quoteSign spaceSign quoted arg := by
  induction arg generalizing quoted with
  | nil => rfl
  | cons c rest ih =>
    by_cases here : c = quoteSign
    · rw [here, escapeQuotes_quote, whole_cons spaceSign_ne_quoteSign, mode_backslash, whole_cons spaceSign_ne_quoteSign,
        ih, whole_cons spaceSign_ne_quoteSign]
      exact and_iff_right fun space => absurd space.2 (by decide)
    · rw [escapeQuotes_cons here, whole_cons spaceSign_ne_quoteSign, ih, whole_cons spaceSign_ne_quoteSign]

theorem count_space_escapeQuotes (arg : List UInt8) : (escapeQuotes arg).count spaceSign = arg.count spaceSign := by
  induction arg with
  | nil => rfl
  | cons c rest ih =>
    by_cases here : c = quoteSign
    · rw [here, escapeQuotes_quote, List.count_cons_of_ne (by decide), List.count_cons_of_ne (by decide), ih,
        List.count_cons_of_ne (by decide)]
    · rw [escapeQuotes_cons here, List.count_cons, ih, List.count_cons]

theorem space_mem_escapeQuotes {arg : List UInt8} : spaceSign ∈ escapeQuotes arg ↔ spaceSign ∈ arg := by
  rw [← List.count_pos_iff, count_space_escapeQuotes, List.count_pos_iff]

/-- Only the inserted backslashes are in front of a quote that is taken with them. -/
theorem replaceAll_escapeQuotes (arg : List UInt8) : replaceAll (escapeQuotes arg) = arg := by
  induction arg with
  | nil => rfl
  | cons c rest ih =>
    by_cases here : c = quoteSign
    · rw [here, escapeQuotes_quote, replaceAll, if_pos ⟨rfl, rfl⟩, ih]
    · rw [escapeQuotes_cons here]
      cases escaped : escapeQuotes rest with
      | nil =>
        rw [escaped] at ih
        rw [← ih]
        rfl
      | cons d behind =>
        have plain : ¬ (c = backslash ∧ d = quoteSign) := by
          rintro ⟨_, quote⟩
          exact escapeQuotes_head? rest (by rw [escaped, quote]; rfl)
        rw [replaceAll, if_neg plain, ← escaped, ih]

/-! ## The entry of an argument -/

theorem shellEntry_spaced {arg : List UInt8} (space : spaceSign ∈ arg) :
    shellEntry arg = quoteSign :: (escapeQuotes arg ++ [quoteSign]) :=
  if_pos (space_mem_escapeQuotes.mpr space)

theorem shellEntry_unspaced {arg : List UInt8} (space : spaceSign ∉ arg) : shellEntry arg = escapeQuotes arg :=
  if_neg fun found => space (space_mem_escapeQuotes.mp found)

theorem shellEntry_ne_nil {arg : List UInt8} (filled : arg ≠ []) : shellEntry arg ≠ [] := by
  by_cases space : spaceSign ∈ arg
  · rw [shellEntry_spaced space]
    exact List.cons_ne_nil _ _
  · rw [shellEntry_unspaced space]
    intro empty
    have same := replaceAll_escapeQuotes arg
    rw [empty] at same
    exact filled same.symm

theorem count_space_shellEntry (arg : List UInt8) : (shellEntry arg).count spaceSign = arg.count spaceSign := by
  by_cases space : spaceSign ∈ arg
  · rw [shellEntry_spaced space, List.count_cons_of_ne (by decide), List.count_append, count_space_escapeQuotes]
    rfl
  · rw [shellEntry_unspaced space, count_space_escapeQuotes]

/-- Enclosing quotes change the mode twice. -/
theorem modeAfter_shellEntry (arg : List UInt8) :
    modeAfter quoteSign false (shellEntry arg) = false ↔ arg.count quoteSign % 2 = 0 := by
  by_cases space : spaceSign ∈ arg
  · have inside : modeAfter quoteSign true arg = true ↔ arg.count quoteSign % 2 = 0 := modeAfter_eq_iff true arg
    rw [shellEntry_spaced space, modeAfter_cons, mode_quote, modeAfter_append, modeAfter_escapeQuotes, modeAfter_cons,
      mode_quote, modeAfter_nil, Bool.not_eq_false', ← inside]
    rfl
  · rw [shellEntry_unspaced space, modeAfter_escapeQuotes, modeAfter_eq_iff]

theorem whole_shellEntry (arg : List UInt8) :
    Whole quoteSign spaceSign false (shellEntry arg) ↔
      ∀ front rest, arg = front ++ spaceSign :: rest → front.count quoteSign % 2 = 0 := by
  by_cases space : spaceSign ∈ arg
  · have last (quoted : Bool) : Whole quoteSign spaceSign quoted [quoteSign] := by
      rw [whole_cons spaceSign_ne_quoteSign]
      exact ⟨fun separator => spaceSign_ne_quoteSign separator.2.symm, whole_nil _⟩
    rw [shellEntry_spaced space, whole_cons spaceSign_ne_quoteSign, mode_quote, whole_append spaceSign_ne_quoteSign,
      and_iff_left (last _), whole_escapeQuotes, and_iff_right fun separator => spaceSign_ne_quoteSign separator.2.symm]
    unfold Whole
    simp only [Bool.not_false, modeAfter_eq_iff]
  · have unspaced (front rest : List UInt8) : arg ≠ front ++ spaceSign :: rest := by
      intro same
      exact space (same ▸ List.mem_append_right _ List.mem_cons_self)
    rw [shellEntry_unspaced space, whole_escapeQuotes]
    constructor
    · intro _ front rest same
      exact absurd same (unspaced front rest)
    · intro _ front rest same
      exact absurd same (unspaced front rest)

/-- build_args makes the argument of its entry again. -/
theorem makeEntry_shellEntry (arg : List UInt8) : makeEntry (shellEntry arg) = some arg := by
  by_cases space : spaceSign ∈ arg
  · have enclosed : Enclosed (shellEntry arg) := by
      rw [shellEntry_spaced space, ← List.cons_append]
      exact ⟨rfl, List.getLast?_concat⟩
    have long : ¬ (shellEntry arg).length < 2 := by
      rw [shellEntry_spaced space, List.length_cons, List.length_append, List.length_singleton]
      omega
    rw [makeEntry, if_pos enclosed, if_neg long, shellEntry_spaced space, List.tail_cons, List.dropLast_concat,
      replaceAll_escapeQuotes]
  · rw [shellEntry_unspaced space, makeEntry, if_neg fun enclosed => escapeQuotes_head? arg enclosed.1,
      replaceAll_escapeQuotes]

/-! ## The spaces of a word -/

theorem count_space_replaceAll (data : List UInt8) : (replaceAll data).count spaceSign = data.count spaceSign := by
  fun_induction replaceAll data with
  | case1 => rfl
  | case2 c => rfl
  | case3 c d rest escaped ih =>
    rw [escaped.1, escaped.2, List.count_cons_of_ne (by decide), List.count_cons_of_ne (by decide),
      List.count_cons_of_ne (by decide), ih]
  | case4 c d rest plain ih => rw [List.count_cons, ih, ← List.count_cons]

theorem count_space_makeEntry {part value : List UInt8} (made : makeEntry part = some value) :
    value.count spaceSign = part.count spaceSign := by
  unfold makeEntry at made
  split at made
  case isTrue enclosed =>
    split at made
    case isTrue => cases made
    case isFalse long =>
      cases made
      rw [count_space_replaceAll]
      obtain ⟨rest, rfl⟩ := List.head?_eq_some_iff.mp enclosed.1
      cases rest using List.reverseRecOn with
      | nil => exact absurd (Nat.lt_succ_self 1) long
      | append_singleton inner last =>
        have quote : last = quoteSign := by
          have last := enclosed.2
          rw [← List.cons_append, List.getLast?_concat] at last
          exact Option.some.inj last
        rw [List.tail_cons, List.dropLast_concat, quote, List.count_cons_of_ne (by decide), List.count_append]
        rfl
  case isFalse =>
    cases made
    exact count_space_replaceAll part

/-! ## The line -/

theorem foldl_shellEntry {st : List UInt8} (filled : st ≠ []) (data : List (List UInt8)) :
    buildCmdShell st data = st ++ Delimited.following spaceSign (data.map shellEntry) := by
  unfold buildCmdShell
  induction data generalizing st with
  | nil => exact (List.append_nil st).symm
  | cons arg rest ih =>
    rw [List.foldl_cons, if_pos filled, ih (List.append_ne_nil_of_left_ne_nil (List.append_ne_nil_of_left_ne_nil filled _) _)]
    simp

theorem buildCmdShell_cons {arg : List UInt8} (filled : arg ≠ []) (rest : List (List UInt8)) :
    buildCmdShell [] (arg :: rest) = shellEntry arg ++ Delimited.following spaceSign (rest.map shellEntry) :=
  foldl_shellEntry (shellEntry_ne_nil filled) rest

theorem buildCmdShell_cons_cons {arg next : List UInt8} (filled : arg ≠ []) (more : next ≠ []) (rest : List (List UInt8)) :
    buildCmdShell [] (arg :: next :: rest) = shellEntry arg ++ spaceSign :: buildCmdShell [] (next :: rest) := by
  rw [buildCmdShell_cons filled, buildCmdShell_cons more]
  rfl

theorem buildArgs_cons_iff {data word arg : List UInt8} {words args : List (List UInt8)}
    (cut : lineWords data = word :: words) :
    buildArgs data = some (arg :: args) ↔ makeEntry word = some arg ∧ (words.map makeEntry).mapM id = some args := by
  rw [buildArgs_eq, cut, List.map_cons, List.mapM_cons]
  cases makeEntry word with
  | none => simp
  | some value => cases (words.map makeEntry).mapM id <;> simp

/-- An argument comes back from a first piece with as many spaces only. -/
theorem buildArgs_ne {data word arg : List UInt8} {others args : List (List UInt8)} (cut : linePieces data = word :: others)
    (filled : word ≠ []) (spaces : word.count spaceSign ≠ arg.count spaceSign) : buildArgs data ≠ some (arg :: args) := by
  intro same
  have first : lineWords data = word :: words others := by rw [lineWords, cut, words_cons filled]
  have made := ((buildArgs_cons_iff first).mp same).1
  exact spaces (count_space_makeEntry made).symm

/-- Cut inside its entry, an argument loses a space. -/
theorem buildArgs_cut {arg : List UInt8} (cut : ¬ Whole quoteSign spaceSign false (shellEntry arg)) (behind : List UInt8)
    (args : List (List UInt8)) : buildArgs (shellEntry arg ++ behind) ≠ some (arg :: args) := by
  obtain ⟨front, rest, same, whole, outside⟩ := (not_whole_iff spaceSign_ne_quoteSign).mp cut
  have first : linePieces (shellEntry arg ++ behind) = front :: linePieces (rest ++ behind) := by
    rw [same, List.append_assoc]
    exact pieces_append_separator spaceSign_ne_quoteSign whole outside (rest ++ behind)
  have fewer := count_space_shellEntry arg
  rw [same, List.count_append, List.count_cons_self] at fewer
  apply buildArgs_ne first
  · -- an entry with a space begins with a quote
    rintro rfl
    have space : spaceSign ∈ arg := by
      rw [← List.count_pos_iff]
      omega
    rw [shellEntry_spaced space] at same
    exact spaceSign_ne_quoteSign (List.cons.inj same).1.symm
  · omega

/-- With an odd number of quotes, it takes the space behind it and more. -/
theorem buildArgs_open {arg : List UInt8} (filled : arg ≠ []) (whole : Whole quoteSign spaceSign false (shellEntry arg))
    (inside : modeAfter quoteSign false (shellEntry arg) = true) (behind : List UInt8) (args : List (List UInt8)) :
    buildArgs (shellEntry arg ++ spaceSign :: behind) ≠ some (arg :: args) := by
  obtain ⟨taken, others, cut⟩ := pieces_append_quoted spaceSign_ne_quoteSign whole inside behind
  apply buildArgs_ne cut (List.append_ne_nil_of_left_ne_nil (shellEntry_ne_nil filled) _)
  rw [List.count_append, List.count_cons_self, count_space_shellEntry]
  omega

theorem buildArgs_last {arg : List UInt8} (filled : arg ≠ []) :
    buildArgs (buildCmdShell [] [arg]) = some [arg] ↔ Whole quoteSign spaceSign false (shellEntry arg) := by
  rw [buildCmdShell_cons filled]
  constructor
  · intro same
    by_contra cut
    exact buildArgs_cut cut _ _ same
  · intro whole
    have first : lineWords (shellEntry arg ++ []) = [shellEntry arg] := by
      rw [List.append_nil, lineWords, linePieces, pieces_whole spaceSign_ne_quoteSign whole,
        words_cons (shellEntry_ne_nil filled)]
      rfl
    exact (buildArgs_cons_iff first).mpr ⟨makeEntry_shellEntry arg, rfl⟩

theorem buildArgs_front {arg next : List UInt8} (filled : arg ≠ []) (more : next ≠ []) (rest : List (List UInt8)) :
    buildArgs (buildCmdShell [] (arg :: next :: rest)) = some (arg :: next :: rest) ↔
      (arg.count quoteSign % 2 = 0 ∧ Whole quoteSign spaceSign false (shellEntry arg)) ∧
        buildArgs (buildCmdShell [] (next :: rest)) = some (next :: rest) := by
  rw [buildCmdShell_cons_cons filled more, ← modeAfter_shellEntry]
  by_cases whole : Whole quoteSign spaceSign false (shellEntry arg)
  · cases closed : modeAfter quoteSign false (shellEntry arg) with
    | true => simp [buildArgs_open filled whole closed]
    | false =>
      have first : lineWords (shellEntry arg ++ spaceSign :: buildCmdShell [] (next :: rest)) =
          shellEntry arg :: lineWords (buildCmdShell [] (next :: rest)) := by
        rw [lineWords, linePieces, pieces_append_separator spaceSign_ne_quoteSign whole closed,
          words_cons (shellEntry_ne_nil filled)]
        rfl
      rw [buildArgs_cons_iff first, buildArgs_eq]
      simp [whole, makeEntry_shellEntry]
  · simp [whole, buildArgs_cut whole]

/-- build_args undoes build_cmd_shell exactly for balanced arguments. -/
theorem buildArgs_buildCmdShell_iff {args : List (List UInt8)} (filled : ∀ arg ∈ args, arg ≠ []) :
    buildArgs (buildCmdShell [] args) = some args ↔ Balanced args := by
  unfold Balanced
  induction args with
  | nil => simp [buildArgs, buildCmdShell, ArgScan.finish]
  | cons arg rest ih =>
    rw [List.forall_mem_cons] at filled
    cases rest with
    | nil => simpa [whole_shellEntry] using buildArgs_last filled.1
    | cons next rest =>
      rw [buildArgs_front filled.1 (filled.2 next List.mem_cons_self), ih filled.2, List.dropLast_cons_cons,
        whole_shellEntry]
      simp only [List.forall_mem_cons]
      exact and_and_and_comm

theorem buildArgs_buildCmdShell_iff_spaced :
    let args : List (List UInt8) := [[97, spaceSign, 98], [quoteSign, backslash]]
    buildArgs (buildCmdShell [] args) = some args ↔ Balanced args :=
  buildArgs_buildCmdShell_iff (by decide)

/-- The arguments `"` and `b` come back as one, since the escaped quote opens a quoted part. -/
theorem buildArgs_buildCmdShell_ne_quote :
    let args : List (List UInt8) := [[quoteSign], [98]]
    (∀ arg ∈ args, arg ≠ []) ∧ buildArgs (buildCmdShell [] args) = some [[quoteSign, spaceSign, 98]] ∧
      buildArgs (buildCmdShell [] args) ≠ some args := by
  decide +kernel

end BoostProcess.V1.Posix
