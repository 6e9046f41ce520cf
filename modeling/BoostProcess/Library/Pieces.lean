import Mathlib.Data.List.Basic

/-! Pieces of a text between the separators that stand outside quotes.

A quote opens or closes a quoted part; a quote that is never closed reaches to the end.
Pieces may be empty; the words of a text are its pieces that are not.
-/

set_option autoImplicit false

namespace Pieces

variable {Code : Type}

/-! ## Lists of pieces -/

/-- The pieces that are not empty. -/
def words (pieces : List (List Code)) : List (List Code) := pieces.filter (· ≠ [])

@[simp] theorem words_cons_nil (rest : List (List Code)) : words ([] :: rest) = words rest := by
  simp [words]

theorem words_cons {piece : List Code} (filled : piece ≠ []) (rest : List (List Code)) :
    words (piece :: rest) = piece :: words rest := by
  simp [words, filled]

theorem mem_words {pieces : List (List Code)} {word : List Code} :
    word ∈ words pieces ↔ word ∈ pieces ∧ word ≠ [] := by
  simp [words]

theorem flatten_words (pieces : List (List Code)) : (words pieces).flatten = pieces.flatten := by
  induction pieces with
  | nil => rfl
  | cons piece rest ih =>
    by_cases filled : piece = []
    · simp [filled, ih]
    · simp [words_cons filled, ih]

theorem flatten_map_length {shrink : List Code → List Code} {texts : List (List Code)}
    (shrinks : ∀ text, (shrink text).length ≤ text.length) :
    (texts.map shrink).flatten.length ≤ texts.flatten.length := by
  induction texts with
  | nil => simp
  | cons text rest ih =>
    have := shrinks text
    simp only [List.map_cons, List.flatten_cons, List.length_append]
    omega

/-- Text in front of the first piece, put there at once or one code after the other. -/
theorem modifyHead_snoc (front : List Code) (code : Code) (pieces : List (List Code)) :
    (pieces.modifyHead (code :: ·)).modifyHead (front ++ ·) = pieces.modifyHead (front ++ [code] ++ ·) := by
  rw [List.modifyHead_modifyHead]
  congr 1
  funext piece
  simp

@[simp] theorem modifyHead_nil (pieces : List (List Code)) : pieces.modifyHead (([] : List Code) ++ ·) = pieces := by
  cases pieces <;> rfl

/-! ## Cutting a text -/

variable [DecidableEq Code] {quote separator : Code}

/-- A quote changes the mode, and belongs to the mode it opens. -/
def mode (quote : Code) (quoted : Bool) (code : Code) : Bool :=
  if code = quote then !quoted else quoted

def pieces (quote separator : Code) (quoted : Bool) : List Code → List (List Code)
  | [] => [[]]
  | code :: rest =>
    let quoted := mode quote quoted code
    if quoted = false ∧ code = separator then [] :: pieces quote separator quoted rest
    else (pieces quote separator quoted rest).modifyHead (code :: ·)

theorem pieces_ne_nil (quoted : Bool) (text : List Code) : pieces quote separator quoted text ≠ [] := by
  cases text with
  | nil => simp [pieces]
  | cons code rest =>
    simp only [pieces]
    split
    · exact List.cons_ne_nil _ _
    · rw [ne_eq, List.modifyHead_eq_nil_iff]
      exact pieces_ne_nil _ rest

/-- At a separator the text in front of it has become a piece. -/
theorem front_separator {quoted : Bool} {code : Code} {rest : List Code} (front : List Code)
    (here : mode quote quoted code = false ∧ code = separator) :
    (pieces quote separator quoted (code :: rest)).modifyHead (front ++ ·) =
      front :: pieces quote separator (mode quote quoted code) rest := by
  simp only [pieces, if_pos here, List.modifyHead_cons, List.append_nil]

/-- Any other code belongs to the same piece as the text in front of it. -/
theorem front_code {quoted : Bool} {code : Code} {rest : List Code} (front : List Code)
    (here : ¬ (mode quote quoted code = false ∧ code = separator)) :
    (pieces quote separator quoted (code :: rest)).modifyHead (front ++ ·) =
      (pieces quote separator (mode quote quoted code) rest).modifyHead (front ++ [code] ++ ·) := by
  simp only [pieces, if_neg here, modifyHead_snoc]

/-! ## The mode behind a text -/

def modeAfter (quote : Code) (quoted : Bool) (text : List Code) : Bool := text.foldl (mode quote) quoted

@[simp] theorem modeAfter_nil (quoted : Bool) : modeAfter quote quoted [] = quoted := rfl

@[simp] theorem modeAfter_cons (quoted : Bool) (code : Code) (rest : List Code) :
    modeAfter quote quoted (code :: rest) = modeAfter quote (mode quote quoted code) rest := rfl

@[simp] theorem modeAfter_append (quoted : Bool) (front rest : List Code) :
    modeAfter quote quoted (front ++ rest) = modeAfter quote (modeAfter quote quoted front) rest :=
  List.foldl_append

@[simp] theorem mode_quote (quoted : Bool) : mode quote quoted quote = !quoted := if_pos rfl

theorem mode_of_ne {code : Code} (other : code ≠ quote) (quoted : Bool) : mode quote quoted code = quoted :=
  if_neg other

/-- An odd number of quotes changes the mode. -/
theorem modeAfter_eq_iff (quoted : Bool) (text : List Code) :
    modeAfter quote quoted text = quoted ↔ text.count quote % 2 = 0 := by
  induction text generalizing quoted with
  | nil => simp
  | cons code rest ih =>
    rw [modeAfter_cons]
    by_cases here : code = quote
    · have other := ih (!quoted)
      rw [here, mode_quote, List.count_cons_self, ← Bool.not_eq_not, other]
      omega
    · rw [mode_of_ne here, ih, List.count_cons_of_ne here]

/-! ## Texts without a separator outside quotes -/

def Whole (quote separator : Code) (quoted : Bool) (text : List Code) : Prop :=
  ∀ front rest, text = front ++ separator :: rest → modeAfter quote quoted front = true

theorem whole_nil (quoted : Bool) : Whole quote separator quoted [] := by
  intro front rest same
  cases front <;> cases same

section

variable (distinct : separator ≠ quote)
include distinct

theorem whole_cons {quoted : Bool} {code : Code} {rest : List Code} :
    Whole quote separator quoted (code :: rest) ↔
      ¬ (mode quote quoted code = false ∧ code = separator) ∧ Whole quote separator (mode quote quoted code) rest := by
  constructor
  · intro whole
    constructor
    · intro here
      have inside := whole [] rest (by rw [here.2]; rfl)
      rw [here.2, mode_of_ne distinct] at here
      exact absurd (inside.symm.trans here.1) (by decide)
    · intro front after same
      exact whole (code :: front) after (congrArg (code :: ·) same)
  · rintro ⟨here, whole⟩ front after same
    cases front with
    | nil =>
      cases same
      rw [mode_of_ne distinct] at here
      exact eq_true_of_ne_false fun outside => here ⟨outside, rfl⟩
    | cons first front =>
      cases same
      exact whole front after rfl

theorem whole_append {quoted : Bool} {front rest : List Code} :
    Whole quote separator quoted (front ++ rest) ↔
      Whole quote separator quoted front ∧ Whole quote separator (modeAfter quote quoted front) rest := by
  induction front generalizing quoted with
  | nil => exact (and_iff_right (whole_nil quoted)).symm
  | cons code front ih =>
    rw [List.cons_append, whole_cons distinct, ih, whole_cons distinct, and_assoc]
    rfl

/-- A text is whole up to its first separator outside quotes. -/
theorem not_whole_iff {quoted : Bool} {text : List Code} :
    ¬ Whole quote separator quoted text ↔
      ∃ front rest, text = front ++ separator :: rest ∧ Whole quote separator quoted front ∧
        modeAfter quote quoted front = false := by
  constructor
  · intro cut
    induction text generalizing quoted with
    | nil => exact absurd (whole_nil quoted) cut
    | cons code rest ih =>
      by_cases here : mode quote quoted code = false ∧ code = separator
      · rcases here with ⟨outside, rfl⟩
        rw [mode_of_ne distinct] at outside
        exact ⟨[], rest, rfl, whole_nil quoted, outside⟩
      · rw [whole_cons distinct, and_iff_right here] at cut
        obtain ⟨front, after, same, whole, outside⟩ := ih cut
        exact ⟨code :: front, after, congrArg (code :: ·) same, (whole_cons distinct).mpr ⟨here, whole⟩, outside⟩
  · rintro ⟨front, rest, same, _, outside⟩ whole
    rw [whole front rest same] at outside
    cases outside

/-- A whole text stays in one piece with the text behind it. -/
theorem pieces_append {quoted : Bool} {front : List Code} (whole : Whole quote separator quoted front) (text : List Code) :
    pieces quote separator quoted (front ++ text) =
      (pieces quote separator (modeAfter quote quoted front) text).modifyHead (front ++ ·) := by
  induction front generalizing quoted with
  | nil => exact (modifyHead_nil _).symm
  | cons code front ih =>
    rw [whole_cons distinct] at whole
    rw [List.cons_append, pieces, if_neg whole.1, ih whole.2, List.modifyHead_modifyHead]
    rfl

theorem pieces_whole {quoted : Bool} {text : List Code} (whole : Whole quote separator quoted text) :
    pieces quote separator quoted text = [text] := by
  have alone := pieces_append distinct whole []
  rwa [pieces, List.modifyHead_cons, List.append_nil] at alone

/-- A separator outside quotes ends the piece. -/
theorem pieces_append_separator {quoted : Bool} {front : List Code} (whole : Whole quote separator quoted front)
    (outside : modeAfter quote quoted front = false) (text : List Code) :
    pieces quote separator quoted (front ++ separator :: text) = front :: pieces quote separator false text := by
  have here : mode quote false separator = false ∧ separator = separator := ⟨mode_of_ne distinct false, rfl⟩
  rw [pieces_append distinct whole, outside, front_separator front here, here.1]

/-- A separator inside quotes does not. -/
theorem pieces_append_quoted {quoted : Bool} {front : List Code} (whole : Whole quote separator quoted front)
    (inside : modeAfter quote quoted front = true) (text : List Code) :
    ∃ behind others, pieces quote separator quoted (front ++ separator :: text) = (front ++ separator :: behind) :: others := by
  have here : ¬ (mode quote true separator = false ∧ separator = separator) := by
    rw [mode_of_ne distinct]
    exact fun outside => absurd outside.1 (by decide)
  obtain ⟨behind, others, cut⟩ :=
    List.exists_cons_of_ne_nil (@pieces_ne_nil _ _ quote separator (mode quote true separator) text)
  exists behind, others
  rw [pieces_append distinct whole, inside, front_code front here, cut, List.modifyHead_cons, List.append_assoc]
  rfl

omit [DecidableEq Code] distinct in
theorem getLast?_append_cons {first front : List Code} {code : Code} :
    (first ++ code :: front).getLast? = some code ↔ front = [] ∨ front.getLast? = some code := by
  rcases List.eq_nil_or_concat front with rfl | ⟨before, last, rfl⟩
  · simp
  · rw [List.concat_eq_append, ← List.cons_append, ← List.append_assoc, List.getLast?_concat, List.getLast?_concat]
    simp

/-- A piece that is one quote ends the text, since the quote opens a part that reaches there. -/
theorem quote_mem_pieces_iff {text : List Code} :
    [quote] ∈ pieces quote separator false text ↔
      ∃ front, text = front ++ [quote] ∧ modeAfter quote false front = false ∧
        (front = [] ∨ front.getLast? = some separator) := by
  induction length : text.length using Nat.strongRecOn generalizing text with
  | ind length ih =>
  by_cases whole : Whole quote separator false text
  · rw [pieces_whole distinct whole, List.mem_singleton]
    constructor
    · intro alone
      exact ⟨[], alone.symm, rfl, .inl rfl⟩
    · rintro ⟨front, same, outside, start | behind⟩
      · rw [same, start]
        rfl
      · -- the separator in front would cut the text
        obtain ⟨before, rfl⟩ := List.getLast?_eq_some_iff.mp behind
        have inside := whole before [quote] (by rw [same, List.append_assoc]; rfl)
        rw [modeAfter_append, inside, modeAfter_cons, mode_of_ne distinct] at outside
        cases outside
  · obtain ⟨first, more, same, whole, outside⟩ := (not_whole_iff distinct).mp whole
    have later := @ih more.length (by rw [← length, same, List.length_append, List.length_cons]; omega) more rfl
    have behind (front : List Code) : modeAfter quote false (first ++ separator :: front) = modeAfter quote false front := by
      rw [modeAfter_append, outside, modeAfter_cons, mode_of_ne distinct]
    have other : [quote] ≠ first := by
      rintro rfl
      simp at outside
    rw [same, pieces_append_separator distinct whole outside, List.mem_cons, or_iff_right other, later]
    constructor
    · rintro ⟨front, rfl, closed, start⟩
      exact ⟨first ++ separator :: front, (List.append_assoc first (separator :: front) [quote]).symm,
        (behind front).trans closed,
        .inr (getLast?_append_cons.mpr start)⟩
    · rintro ⟨front, ends, closed, start⟩
      rcases List.eq_nil_or_concat more with rfl | ⟨inner, last, rfl⟩
      · exact absurd (List.append_inj' ends rfl).2 (by simpa using distinct)
      · rw [List.concat_eq_append, ← List.cons_append, ← List.append_assoc] at ends
        obtain ⟨rfl, last⟩ := List.append_inj' ends rfl
        rw [behind] at closed
        have start := start.resolve_left (List.append_ne_nil_of_right_ne_nil _ (List.cons_ne_nil _ _))
        exact ⟨inner, by rw [List.concat_eq_append, last], closed, getLast?_append_cons.mp start⟩

end

/-- Without a quote there is nothing but the separators. -/
theorem pieces_eq_splitOn {text : List Code} (unquoted : quote ∉ text) :
    pieces quote separator false text = text.splitOn separator := by
  induction text with
  | nil => rfl
  | cons code rest ih =>
    rw [List.mem_cons, not_or] at unquoted
    rw [pieces, mode_of_ne (Ne.symm unquoted.1), ih unquoted.2, List.splitOn_cons_eq_if_modifyHead]
    by_cases here : code = separator <;> simp [here]

/-- A piece has no other codes than the text. -/
theorem subset_of_mem_pieces {quoted : Bool} {text piece : List Code}
    (member : piece ∈ pieces quote separator quoted text) : piece ⊆ text := by
  induction text generalizing quoted piece with
  | nil =>
    rw [pieces, List.mem_singleton] at member
    rw [member]
    exact List.Subset.refl _
  | cons code rest ih =>
    simp only [pieces] at member
    split at member
    · rcases List.mem_cons.mp member with rfl | later
      · exact List.nil_subset _
      · exact List.Subset.trans (ih later) (List.subset_cons_self code rest)
    · obtain ⟨first, others, cut⟩ :=
        List.exists_cons_of_ne_nil (@pieces_ne_nil _ _ quote separator (mode quote quoted code) rest)
      rw [cut, List.modifyHead_cons, List.mem_cons] at member
      have within (piece : List Code) (member : piece ∈ first :: others) : piece ⊆ rest := ih (cut ▸ member)
      rcases member with rfl | later
      · exact List.cons_subset_cons code (within first List.mem_cons_self)
      · exact List.Subset.trans (within piece (List.mem_cons_of_mem _ later)) (List.subset_cons_self code rest)

end Pieces
