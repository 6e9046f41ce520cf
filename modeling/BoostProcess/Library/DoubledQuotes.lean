import BoostProcess.Library.Delimited

/-! Lines of tokens in which a quote inside of quotes is written twice.

A token is spelled as itself, if it is neither empty nor has a quote or a separator in it, or
between two quotes. A line is read in no more than one way.
-/

set_option autoImplicit false

namespace DoubledQuotes

open Delimited

structure Signs (Code : Type) where
  quote : Code
  separator : Code
  distinct : separator ≠ quote

variable {Code : Type} [DecidableEq Code]

/-- The text with each quote in it written twice. -/
def double (quote : Code) (text : List Code) : List Code :=
  text.flatMap fun code => if code = quote then [quote, quote] else [code]

@[simp] theorem double_cons_quote (quote : Code) (rest : List Code) :
    double quote (quote :: rest) = quote :: quote :: double quote rest := by
  simp [double]

theorem double_cons {quote code : Code} (other : code ≠ quote) (rest : List Code) :
    double quote (code :: rest) = code :: double quote rest := by
  simp [double, other]

variable (signs : Signs Code)

/-- A token and a way to write it. -/
inductive Spelling : List Code → List Code → Prop
  | bare {token : List Code} : token ≠ [] → signs.quote ∉ token → signs.separator ∉ token → Spelling token token
  | quoted (token : List Code) : Spelling token (signs.quote :: double signs.quote token ++ [signs.quote])

/-- Tokens and a line with a separator between their spellings. -/
def Reads (line : List Code) (tokens : List (List Code)) : Prop :=
  ∃ spellings, List.Forall₂ (Spelling signs) tokens spellings ∧ line = [signs.separator].intercalate spellings

variable {signs}

theorem Spelling.ne_nil {token spelling : List Code} (spells : Spelling signs token spelling) : spelling ≠ [] := by
  cases spells with
  | bare filled _ _ => exact filled
  | quoted => exact List.cons_ne_nil _ _

/-! ## Where a token ends -/

/-- What can stand behind a token. -/
def Ends (separator : Code) (rest : List Code) : Prop := rest = [] ∨ ∃ behind, rest = separator :: behind

omit [DecidableEq Code] in
theorem ends_following (separator : Code) (texts : List (List Code)) : Ends separator (following separator texts) := by
  cases texts with
  | nil => exact .inl rfl
  | cons text rest => exact .inr ⟨text ++ following separator rest, rfl⟩

omit [DecidableEq Code] in
theorem Ends.head_ne {rest : List Code} (ends : Ends signs.separator rest) : rest.head? ≠ some signs.quote := by
  cases ends with
  | inl nothing =>
    rw [nothing]
    exact nofun
  | inr something =>
    obtain ⟨behind, rfl⟩ := something
    exact fun same => signs.distinct (Option.some.inj same)

omit [DecidableEq Code] in
theorem bare_unique {token token' rest rest' : List Code} (free : signs.separator ∉ token)
    (free' : signs.separator ∉ token') (ends : Ends signs.separator rest) (ends' : Ends signs.separator rest')
    (same : token ++ rest = token' ++ rest') : token = token' ∧ rest = rest' := by
  rcases ends with rfl | ⟨behind, rfl⟩
  · rcases ends' with rfl | ⟨behind', rfl⟩
    · rw [List.append_nil, List.append_nil] at same
      exact ⟨same, rfl⟩
    · rw [List.append_nil] at same
      exact absurd (same ▸ List.mem_append_right token' List.mem_cons_self) free
  · rcases ends' with rfl | ⟨behind', rfl⟩
    · rw [List.append_nil] at same
      exact absurd (same ▸ List.mem_append_right token List.mem_cons_self) free'
    · obtain ⟨tokens, rests⟩ := front_unique free free' same
      exact ⟨tokens, congrArg _ rests⟩

/-- Read on behind an opening quote: the text up to the single quote that ends it, and what follows. -/
def readQuoted (quote : Code) : List Code → Option (List Code × List Code)
  | [] => none
  | [code] => if code = quote then some ([], []) else none
  | code :: next :: rest =>
    if code ≠ quote then (readQuoted quote (next :: rest)).map fun (token, behind) => (code :: token, behind)
    else if next = quote then (readQuoted quote rest).map fun (token, behind) => (quote :: token, behind)
    else some ([], next :: rest)

theorem readQuoted_cons {quote code : Code} (other : code ≠ quote) (rest : List Code) :
    readQuoted quote (code :: rest) = (readQuoted quote rest).map fun (token, behind) => (code :: token, behind) := by
  cases rest with
  | nil => exact if_neg other
  | cons next rest => exact if_pos other

/-- What has been doubled is read back. -/
theorem readQuoted_double {quote : Code} {rest : List Code} (ends : rest.head? ≠ some quote) (token : List Code) :
    readQuoted quote (double quote token ++ quote :: rest) = some (token, rest) := by
  induction token with
  | nil =>
    cases rest with
    | nil => exact if_pos rfl
    | cons next rest =>
      have other : next ≠ quote := fun same => ends (congrArg some same)
      exact (if_neg (not_not_intro rfl)).trans (if_neg other)
  | cons code token ih =>
    by_cases here : code = quote
    · rw [here, double_cons_quote, List.cons_append, List.cons_append, readQuoted, ih]
      simp
    · rw [double_cons here, List.cons_append, readQuoted_cons here, ih]
      rfl

theorem quoted_unique {quote : Code} {token token' rest rest' : List Code} (ends : rest.head? ≠ some quote)
    (ends' : rest'.head? ≠ some quote) (same : double quote token ++ quote :: rest = double quote token' ++ quote :: rest') :
    token = token' ∧ rest = rest' := by
  have read := readQuoted_double ends token
  rw [same, readQuoted_double ends' token'] at read
  exact Prod.mk.inj (Option.some.inj read.symm)

theorem spelling_unique {token token' spelling spelling' rest rest' : List Code} (spells : Spelling signs token spelling)
    (spells' : Spelling signs token' spelling') (ends : Ends signs.separator rest) (ends' : Ends signs.separator rest')
    (same : spelling ++ rest = spelling' ++ rest') : token = token' ∧ rest = rest' := by
  cases spells with
  | bare filled unquoted free =>
    cases spells' with
    | bare filled' unquoted' free' => exact bare_unique free free' ends ends' same
    | quoted =>
      obtain ⟨code, token, rfl⟩ := List.exists_cons_of_ne_nil filled
      exact absurd (List.cons.inj same).1.symm (List.ne_of_not_mem_cons unquoted)
  | quoted =>
    cases spells' with
    | bare filled' unquoted' free' =>
      obtain ⟨code, token', rfl⟩ := List.exists_cons_of_ne_nil filled'
      exact absurd (List.cons.inj same).1 (List.ne_of_not_mem_cons unquoted')
    | quoted =>
      apply quoted_unique ends.head_ne ends'.head_ne
      have inner : double signs.quote token ++ [signs.quote] ++ rest = double signs.quote token' ++ [signs.quote] ++ rest' :=
        (List.cons.inj same).2
      simpa only [List.append_assoc, List.singleton_append] using inner

/-! ## Lines -/

theorem following_unique {tokens tokens' spellings spellings' : List (List Code)}
    (spell : List.Forall₂ (Spelling signs) tokens spellings) (spell' : List.Forall₂ (Spelling signs) tokens' spellings')
    (same : following signs.separator spellings = following signs.separator spellings') : tokens = tokens' := by
  induction spell generalizing tokens' spellings' with
  | nil =>
    cases spell' with
    | nil => rfl
    | cons _ _ => cases same
  | cons first _ ih =>
    cases spell' with
    | nil => cases same
    | cons first' others' =>
      rw [following_cons, following_cons, List.cons_append, List.cons_append] at same
      obtain ⟨token, behind⟩ :=
        spelling_unique first first' (ends_following _ _) (ends_following _ _) (List.cons.inj same).2
      exact congrArg₂ List.cons token (ih others' behind)

/-- A line has no more than one list of tokens. -/
theorem Reads.unique {line : List Code} {tokens tokens' : List (List Code)} (reads : Reads signs line tokens)
    (reads' : Reads signs line tokens') : tokens = tokens' := by
  obtain ⟨spellings, spell, whole⟩ := reads
  obtain ⟨spellings', spell', whole'⟩ := reads'
  rw [whole'] at whole
  cases spell with
  | nil =>
    cases spell' with
    | nil => rfl
    | cons first' _ =>
      rw [intercalate_cons] at whole
      exact absurd (List.append_eq_nil_iff.mp whole).1 first'.ne_nil
  | cons first others =>
    cases spell' with
    | nil =>
      rw [intercalate_cons] at whole
      exact absurd (List.append_eq_nil_iff.mp whole.symm).1 first.ne_nil
    | cons first' others' =>
      rw [intercalate_cons, intercalate_cons] at whole
      obtain ⟨token, behind⟩ := spelling_unique first' first (ends_following _ _) (ends_following _ _) whole
      exact congrArg₂ List.cons token.symm (following_unique others others' behind.symm)

end DoubledQuotes
