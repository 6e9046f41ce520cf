import Mathlib.Data.List.Infix

/-! Splitting a command line in which quotes hold blanks together and backslashes quote a quote.

The rules are those that are documented for CommandLineToArgvW. A run of 2n backslashes in
front of a quote gives n of them and the quote begins or ends quoting; with one more the
quote itself is part of the argument; anywhere else backslashes are themselves.
-/

set_option autoImplicit false

namespace CommandLine

variable {Code : Type}

/-- The characters with a meaning. Blanks separate arguments outside of quotes. -/
structure Marks (Code : Type) where
  quote : Code
  backslash : Code
  blank : Code → Bool
  distinct : quote ≠ backslash
  quote_not_blank : blank quote = false
  backslash_not_blank : blank backslash = false

/-- Between two characters: the argument that has begun, the backslashes behind it that have
not got their meaning yet, and the mode. -/
structure State (Code : Type) where
  current : Option (List Code)
  backslashes : Nat
  quoted : Bool

/-- In front of an argument that has not begun. -/
def State.between : State Code := ⟨none, 0, false⟩

/-- A command line begins with its first argument, even if that is empty. -/
def State.initial : State Code := ⟨some [], 0, false⟩

/-- In front of an argument of which nothing has been read. -/
structure State.Fresh (state : State Code) : Prop where
  empty : state.current.getD [] = []
  pending : state.backslashes = 0
  outside : state.quoted = false

theorem State.fresh_initial : (State.initial : State Code).Fresh := ⟨rfl, rfl, rfl⟩

theorem State.fresh_between : (State.between : State Code).Fresh := ⟨rfl, rfl, rfl⟩

namespace Marks
variable (marks : Marks Code)

/-- The argument when no quote follows. -/
def flush (state : State Code) : Option (List Code) :=
  if state.backslashes = 0 then state.current
  else some (state.current.getD [] ++ List.replicate state.backslashes marks.backslash)

variable [DecidableEq Code]

/-- The argument that a character completes, and the state behind it. -/
def step (state : State Code) (code : Code) : Option (List Code) × State Code :=
  if code = marks.backslash then (none, { state with backslashes := state.backslashes + 1 })
  else if code = marks.quote then
    let front := state.current.getD [] ++ List.replicate (state.backslashes / 2) marks.backslash
    if state.backslashes % 2 = 1 then (none, ⟨some (front ++ [marks.quote]), 0, state.quoted⟩)
    else (none, ⟨some front, 0, !state.quoted⟩)
  else if marks.blank code = true ∧ state.quoted = false then (marks.flush state, .between)
  else (none, ⟨some ((marks.flush state).getD [] ++ [code]), 0, state.quoted⟩)

def split (state : State Code) : List Code → List (List Code)
  | [] => (marks.flush state).toList
  | code :: rest => (marks.step state code).1.toList ++ split (marks.step state code).2 rest

theorem step_backslash (state : State Code) :
    marks.step state marks.backslash = (none, { state with backslashes := state.backslashes + 1 }) := by
  simp [step]

theorem step_quote_even {state : State Code} (even : state.backslashes % 2 = 0) :
    marks.step state marks.quote =
      (none, ⟨some (state.current.getD [] ++ List.replicate (state.backslashes / 2) marks.backslash), 0, !state.quoted⟩) := by
  simp [step, marks.distinct, even]

theorem step_quote_odd {state : State Code} (odd : state.backslashes % 2 = 1) :
    marks.step state marks.quote =
      (none, ⟨some (state.current.getD [] ++ List.replicate (state.backslashes / 2) marks.backslash ++ [marks.quote]), 0,
        state.quoted⟩) := by
  simp [step, marks.distinct, odd]

theorem step_blank {state : State Code} {code : Code} (blank : marks.blank code = true) (outside : state.quoted = false) :
    marks.step state code = (marks.flush state, .between) := by
  have backslash : code ≠ marks.backslash := by
    rintro rfl
    simp [marks.backslash_not_blank] at blank
  have quote : code ≠ marks.quote := by
    rintro rfl
    simp [marks.quote_not_blank] at blank
  simp [step, backslash, quote, blank, outside]

theorem step_plain {state : State Code} {code : Code} (backslash : code ≠ marks.backslash) (quote : code ≠ marks.quote)
    (inside : marks.blank code = true → state.quoted = true) :
    marks.step state code = (none, ⟨some ((marks.flush state).getD [] ++ [code]), 0, state.quoted⟩) := by
  have plain : ¬(marks.blank code = true ∧ state.quoted = false) := by
    rintro ⟨blank, outside⟩
    simp [inside blank] at outside
  simp [step, backslash, quote, plain]

/-- The arguments of a command line. -/
def arguments (line : List Code) : List (List Code) := marks.split .initial line

end Marks

/-! ## What can be lost -/

/-- The number of characters of a list of arguments, and one for each. -/
def size : List (List Code) → Nat
  | [] => 0
  | argument :: others => argument.length + 1 + size others

@[simp] theorem size_nil : size ([] : List (List Code)) = 0 := rfl

@[simp] theorem size_cons (argument : List Code) (others : List (List Code)) :
    size (argument :: others) = argument.length + 1 + size others := rfl

@[simp] theorem size_append (first second : List (List Code)) : size (first ++ second) = size first + size second := by
  induction first with
  | nil => simp
  | cons argument others ih => simp [ih, Nat.add_assoc]

/-- What a state holds of the argument that has begun. -/
def State.held (state : State Code) : Nat := (state.current.getD []).length + state.backslashes

namespace Marks
variable (marks : Marks Code)

theorem flush_size (state : State Code) : size (marks.flush state).toList ≤ state.held + 1 := by
  unfold flush State.held
  cases state.current <;> by_cases none_open : state.backslashes = 0 <;> simp [none_open]

theorem flush_held (state : State Code) : ((marks.flush state).getD []).length = state.held := by
  unfold flush State.held
  cases state.current <;> by_cases none_open : state.backslashes = 0 <;> simp [none_open]

theorem flush_getD (state : State Code) :
    (marks.flush state).getD [] = state.current.getD [] ++ List.replicate state.backslashes marks.backslash := by
  unfold flush
  by_cases none_open : state.backslashes = 0 <;> simp [none_open]

theorem flush_of_begun {state : State Code} (begun : state.current ≠ none ∨ 0 < state.backslashes) :
    marks.flush state = some (state.current.getD [] ++ List.replicate state.backslashes marks.backslash) := by
  unfold flush
  by_cases none_open : state.backslashes = 0
  · obtain ⟨current, same⟩ := Option.ne_none_iff_exists'.mp (begun.resolve_right (by omega))
    simp [none_open, same]
  · rw [if_neg none_open]

variable [DecidableEq Code]

/-- At most one character comes out for each that is no quote, and none for a quote. -/
def weight (line : List Code) : Nat := line.countP (· ≠ marks.quote)

theorem weight_cons (code : Code) (rest : List Code) :
    marks.weight (code :: rest) = (if code = marks.quote then 0 else 1) + marks.weight rest := by
  unfold weight
  by_cases quote : code = marks.quote
  · simp [quote]
  · simp [quote, Nat.add_comm]

theorem weight_append (first second : List Code) :
    marks.weight (first ++ second) = marks.weight first + marks.weight second := List.countP_append

/-- What one character adds to what has come out and is held. -/
theorem step_size (state : State Code) (code : Code) :
    size (marks.step state code).1.toList + (marks.step state code).2.held ≤
      state.held + (if code = marks.quote then 0 else 1) := by
  have whole := marks.flush_size state
  have kept := marks.flush_held state
  by_cases backslash : code = marks.backslash
  · subst backslash
    rw [step_backslash, if_neg marks.distinct.symm]
    simp [State.held, Nat.add_assoc]
  · by_cases quote : code = marks.quote
    · subst quote
      rcases Nat.mod_two_eq_zero_or_one state.backslashes with even | odd
      · rw [step_quote_even marks even]
        simp [State.held]
        omega
      · rw [step_quote_odd marks odd]
        simp [State.held]
        omega
    · rw [if_neg quote]
      by_cases ends : marks.blank code = true ∧ state.quoted = false
      · rw [step_blank marks ends.1 ends.2]
        simpa [State.between, State.held] using whole
      · have inside : marks.blank code = true → state.quoted = true := by simpa using ends
        rw [step_plain marks backslash quote inside]
        simp [State.held, kept]

/-- The arguments of a line are never larger than what is held and the weight of the line. -/
theorem split_size (state : State Code) (line : List Code) :
    size (marks.split state line) ≤ state.held + marks.weight line + 1 := by
  induction line generalizing state with
  | nil => simpa [split, weight] using marks.flush_size state
  | cons code rest ih =>
    have now := marks.step_size state code
    have later := ih (marks.step state code).2
    rw [split, size_append, weight_cons]
    omega

/-- A line from which at least one character gets lost, whatever is in front of it. -/
def Loses (line : List Code) : Prop := ∀ state : State Code, size (marks.split state line) ≤ state.held + marks.weight line

theorem loses_append (front : List Code) {line : List Code} (loses : marks.Loses line) : marks.Loses (front ++ line) := by
  induction front with
  | nil => exact loses
  | cons code front ih =>
    intro state
    have now := marks.step_size state code
    have later := ih (marks.step state code).2
    rw [List.cons_append, split, size_append, weight_cons]
    omega

/-- Of two backslashes in front of a quote one gets lost. -/
theorem loses_backslashes (rest : List Code) :
    marks.Loses (marks.backslash :: marks.backslash :: marks.quote :: rest) := by
  intro state
  have later := marks.split_size (marks.step ⟨state.current, state.backslashes + 2, state.quoted⟩ marks.quote).2 rest
  simp only [split, step_backslash, Option.toList_none, List.nil_append, Nat.add_assoc, Nat.reduceAdd, weight_cons,
    marks.distinct.symm, if_false, if_true]
  rcases Nat.mod_two_eq_zero_or_one (state.backslashes + 2) with even | odd
  · rw [marks.step_quote_even even] at later ⊢
    simp only [State.held, Option.toList_none, List.nil_append, Option.getD_some, List.length_append,
      List.length_replicate] at later ⊢
    omega
  · rw [marks.step_quote_odd odd] at later ⊢
    simp only [State.held, Option.toList_none, List.nil_append, Option.getD_some, List.length_append,
      List.length_replicate, List.length_singleton] at later ⊢
    omega

/-- Characters are only added to an argument that has begun. -/
theorem prefix_of_split {current argument : List Code} {backslashes : Nat} {quoted : Bool} {line : List Code}
    {others : List (List Code)} (given : marks.split ⟨some current, backslashes, quoted⟩ line = argument :: others) :
    current <+: argument := by
  induction line generalizing current backslashes quoted with
  | nil =>
    rw [split, marks.flush_of_begun (.inl (by simp))] at given
    obtain ⟨rfl, -⟩ := List.cons.inj given
    exact List.prefix_append _ _
  | cons code rest ih =>
    by_cases backslash : code = marks.backslash
    · subst backslash
      rw [split, step_backslash] at given
      exact ih given
    · by_cases quote : code = marks.quote
      · subst quote
        rcases Nat.mod_two_eq_zero_or_one backslashes with even | odd
        · rw [split, marks.step_quote_even even] at given
          exact (List.prefix_append _ _).trans (ih given)
        · rw [split, marks.step_quote_odd odd] at given
          have longer := ih given
          rw [List.append_assoc] at longer
          exact (List.prefix_append _ _).trans longer
      · by_cases ends : marks.blank code = true ∧ quoted = false
        · rw [split, marks.step_blank ends.1 ends.2, marks.flush_of_begun (.inl (by simp))] at given
          obtain ⟨rfl, -⟩ := List.cons.inj given
          exact List.prefix_append _ _
        · rw [split, marks.step_plain backslash quote (by simpa using ends), flush_getD] at given
          have longer := ih given
          rw [List.append_assoc] at longer
          exact (List.prefix_append _ _).trans longer

/-! ## Reading arguments back -/

/-- A quote behind every quote's backslash. -/
def escapeQuotes (text : List Code) : List Code :=
  text.flatMap fun code => if code = marks.quote then [marks.backslash, marks.quote] else [code]

/-- What a line gives behind an argument that has ended. -/
def following : List Code → List (List Code)
  | [] => []
  | _ :: rest => marks.split .between rest

omit [DecidableEq Code] in
theorem no_backslashes_before_quote {backslashes : Nat} {rest : List Code}
    (safe : ¬[marks.backslash, marks.quote] <:+: List.replicate backslashes marks.backslash ++ marks.quote :: rest) :
    backslashes = 0 := by
  cases backslashes with
  | zero => rfl
  | succ backslashes =>
    refine absurd ⟨List.replicate backslashes marks.backslash, rest, ?_⟩ safe
    simp [List.replicate_succ']

/-- In quotes a text is read up to its end, unless one of its quotes or its end comes right
behind a backslash. -/
theorem split_escapeQuotes {text : List Code} {current rest : List Code} {backslashes : Nat}
    (safe : ¬[marks.backslash, marks.quote] <:+: List.replicate backslashes marks.backslash ++ (text ++ [marks.quote])) :
    marks.split ⟨some current, backslashes, true⟩ (marks.escapeQuotes text ++ rest) =
      marks.split ⟨some (current ++ List.replicate backslashes marks.backslash ++ text), 0, true⟩ rest := by
  induction text generalizing current backslashes with
  | nil =>
    obtain rfl := marks.no_backslashes_before_quote safe
    simp [escapeQuotes]
  | cons code text ih =>
    have later : ¬[marks.backslash, marks.quote] <:+: List.replicate 0 marks.backslash ++ (text ++ [marks.quote]) := by
      intro inside
      refine safe (inside.trans ⟨List.replicate backslashes marks.backslash ++ [code], [], ?_⟩)
      simp
    by_cases quote : code = marks.quote
    · subst quote
      obtain rfl := marks.no_backslashes_before_quote safe
      have escaped : marks.escapeQuotes (marks.quote :: text) =
          marks.backslash :: marks.quote :: marks.escapeQuotes text := by simp [escapeQuotes]
      rw [escaped, List.cons_append, List.cons_append, split, step_backslash, split, marks.step_quote_odd rfl]
      have read := @ih (current ++ [marks.quote]) 0 later
      simpa using read
    · have escaped : marks.escapeQuotes (code :: text) = code :: marks.escapeQuotes text := by
        simp [escapeQuotes, quote]
      rw [escaped, List.cons_append, split]
      by_cases backslash : code = marks.backslash
      · subst backslash
        have longer : ¬[marks.backslash, marks.quote] <:+:
            List.replicate (backslashes + 1) marks.backslash ++ (text ++ [marks.quote]) := by
          rwa [List.replicate_succ', List.append_assoc]
        rw [step_backslash]
        simpa [List.replicate_succ'] using ih longer
      · rw [marks.step_plain backslash quote (fun _ => rfl), flush_getD]
        have read := @ih (current ++ List.replicate backslashes marks.backslash ++ [code]) 0 later
        simpa using read

/-- Outside of quotes a text without quotes and blanks is read up to the blank behind it. -/
theorem split_bare {text : List Code} {state : State Code} {rest : List Code} (outside : state.quoted = false)
    (begun : state.current ≠ none ∨ 0 < state.backslashes ∨ text ≠ []) (unquoted : marks.quote ∉ text)
    (whole : ∀ code ∈ text, marks.blank code = false) (ends : ∀ code ∈ rest.head?, marks.blank code = true) :
    marks.split state (text ++ rest) =
      (state.current.getD [] ++ List.replicate state.backslashes marks.backslash ++ text) :: marks.following rest := by
  induction text generalizing state with
  | nil =>
    have flushed := marks.flush_of_begun (begun.imp_right fun more => more.resolve_right (by simp))
    cases rest with
    | nil => simp [split, flushed, following]
    | cons blank rest =>
      rw [List.nil_append, split, marks.step_blank (ends blank (by simp)) outside, flushed]
      simp [following]
  | cons code text ih =>
    have later := fun other member => whole other (List.mem_cons_of_mem code member)
    have plain : marks.quote ∉ text := List.not_mem_of_not_mem_cons unquoted
    rw [List.cons_append, split]
    by_cases backslash : code = marks.backslash
    · subst backslash
      rw [step_backslash]
      have read := @ih { state with backslashes := state.backslashes + 1 } outside (.inr (.inl (Nat.succ_pos _))) plain later
      simpa [List.replicate_succ'] using read
    · have quote : code ≠ marks.quote := (List.ne_of_not_mem_cons unquoted).symm
      have not_blank : marks.blank code = true → state.quoted = true := by simp [whole code List.mem_cons_self]
      rw [marks.step_plain backslash quote not_blank, flush_getD]
      have read := @ih ⟨some (state.current.getD [] ++ List.replicate state.backslashes marks.backslash ++ [code]), 0,
        state.quoted⟩ outside (.inl (by simp)) plain later
      simpa using read

/-! ## Lines that are built from arguments -/

/-- An argument in quotes, or as it is. -/
def encode (enclosed : List Code → Bool) (argument : List Code) : List Code :=
  if enclosed argument = true then marks.quote :: (marks.escapeQuotes argument ++ [marks.quote]) else argument

/-- More arguments, each behind a blank. -/
def joined (separator : Code) (enclosed : List Code → Bool) (others : List (List Code)) : List Code :=
  others.flatMap fun argument => separator :: marks.encode enclosed argument

/-- The arguments that are read back: in quotes those without a backslash in front of a quote
or at the end, as they are those without quotes and blanks. -/
def Faithful (enclosed : List Code → Bool) (argument : List Code) : Prop :=
  if enclosed argument = true then ¬[marks.backslash, marks.quote] <:+: argument ++ [marks.quote]
  else marks.quote ∉ argument ∧ ∀ code ∈ argument, marks.blank code = false

theorem weight_escapeQuotes (text : List Code) : marks.weight (marks.escapeQuotes text) = text.length := by
  induction text with
  | nil => rfl
  | cons code text ih =>
    have split : marks.escapeQuotes (code :: text) =
        (if code = marks.quote then [marks.backslash, marks.quote] else [code]) ++ marks.escapeQuotes text := by
      simp [escapeQuotes]
    rw [split, weight_append, ih, List.length_cons]
    by_cases quote : code = marks.quote
    · simp [weight, quote, marks.distinct.symm, Nat.add_comm]
    · simp [weight, quote, Nat.add_comm]

variable {enclosed : List Code → Bool} {separator : Code}

theorem weight_encode_le (argument : List Code) : marks.weight (marks.encode enclosed argument) ≤ argument.length := by
  unfold encode
  split
  · rw [weight_cons, weight_append, weight_escapeQuotes]
    simp [weight]
  · exact List.countP_le_length

theorem weight_joined_le (blank : marks.blank separator = true) (others : List (List Code)) :
    marks.weight (marks.joined separator enclosed others) ≤ size others := by
  have separates : separator ≠ marks.quote := by
    rintro rfl
    simp [marks.quote_not_blank] at blank
  induction others with
  | nil => simp [joined, weight]
  | cons argument others ih =>
    have first : marks.weight (marks.encode enclosed argument) ≤ argument.length := marks.weight_encode_le argument
    have split : marks.joined separator enclosed (argument :: others) =
        separator :: (marks.encode enclosed argument ++ marks.joined separator enclosed others) := by simp [joined]
    rw [split, weight_cons, if_neg separates, weight_append, size_cons]
    omega

theorem joined_ends (blank : marks.blank separator = true) (others : List (List Code)) :
    ∀ code ∈ (marks.joined separator enclosed others).head?, marks.blank code = true := by
  cases others with
  | nil => simp [joined]
  | cons argument others =>
    intro code first
    have same : separator = code := by simpa [joined] using first
    exact same ▸ blank

theorem split_open_quote {state : State Code} (fresh : state.Fresh) (rest : List Code) :
    marks.split state (marks.quote :: rest) = marks.split ⟨some [], 0, true⟩ rest := by
  have even : state.backslashes % 2 = 0 := by rw [fresh.pending]
  rw [split, marks.step_quote_even even, fresh.empty, fresh.pending, fresh.outside]
  rfl

/-- An argument that is read back, with more arguments behind it. -/
theorem split_encode {state : State Code} (fresh : state.Fresh) (nil_enclosed : enclosed [] = true) {argument : List Code}
    {rest : List Code} (faithful : marks.Faithful enclosed argument) (ends : ∀ code ∈ rest.head?, marks.blank code = true) :
    marks.split state (marks.encode enclosed argument ++ rest) = argument :: marks.following rest := by
  unfold Faithful at faithful
  unfold encode
  by_cases quoted : enclosed argument = true
  · rw [if_pos quoted] at faithful ⊢
    have inside := @split_escapeQuotes Code marks _ argument [] (marks.quote :: rest) 0 faithful
    have closed : marks.step ⟨some argument, 0, true⟩ marks.quote = (none, ⟨some argument, 0, false⟩) := by
      rw [marks.step_quote_even rfl]
      simp
    have behind := @split_bare Code marks _ [] ⟨some argument, 0, false⟩ rest rfl (.inl (by simp)) (by simp) (by simp) ends
    rw [List.cons_append, List.append_assoc, marks.split_open_quote fresh]
    simp only [List.replicate_zero, List.append_nil, List.nil_append] at inside
    simp only [List.replicate_zero, List.append_nil, List.nil_append, Option.getD_some] at behind
    rw [List.singleton_append, inside, split, closed, behind]
    rfl
  · rw [if_neg quoted] at faithful ⊢
    have some_code : argument ≠ [] := fun empty => quoted (empty ▸ nil_enclosed)
    rw [marks.split_bare fresh.outside (.inr (.inr some_code)) faithful.1 faithful.2 ends, fresh.empty, fresh.pending]
    rfl

omit [DecidableEq Code] in
/-- Where a backslash comes right in front of a quote, or of the quote that is put behind. -/
theorem backslash_before_quote_iff {text : List Code} :
    [marks.backslash, marks.quote] <:+: text ++ [marks.quote] ↔
      (∃ front rest, text = front ++ marks.backslash :: marks.quote :: rest) ∨ ∃ front, text = front ++ [marks.backslash] := by
  constructor
  · rintro ⟨front, rest, same⟩
    rcases List.eq_nil_or_concat rest with rfl | ⟨rest, last, rfl⟩
    · refine .inr ⟨front, ?_⟩
      rw [List.append_nil, show [marks.backslash, marks.quote] = [marks.backslash] ++ [marks.quote] from rfl,
        ← List.append_assoc] at same
      exact (List.append_cancel_right same).symm
    · refine .inl ⟨front, rest, ?_⟩
      rw [List.concat_eq_append, ← List.append_assoc] at same
      have inner := (List.append_inj' same rfl).1
      simpa using inner.symm
  · rintro (⟨front, rest, rfl⟩ | ⟨front, rfl⟩)
    · exact ⟨front, rest ++ [marks.quote], by simp⟩
    · exact ⟨front, [], by simp⟩

theorem escapeQuotes_append (first second : List Code) :
    marks.escapeQuotes (first ++ second) = marks.escapeQuotes first ++ marks.escapeQuotes second :=
  List.flatMap_append

theorem split_ne_of_loses {state : State Code} (fresh : state.Fresh) (blank : marks.blank separator = true)
    {argument : List Code} {others : List (List Code)}
    (loses : marks.Loses (marks.encode enclosed argument ++ marks.joined separator enclosed others)) :
    marks.split state (marks.encode enclosed argument ++ marks.joined separator enclosed others) ≠ argument :: others := by
  intro same
  have small := loses state
  have first : marks.weight (marks.encode enclosed argument) ≤ argument.length := marks.weight_encode_le argument
  have rest : marks.weight (marks.joined separator enclosed others) ≤ size others := marks.weight_joined_le blank others
  rw [same, size_cons, weight_append, State.held, fresh.empty, fresh.pending, List.length_nil] at small
  omega

/-- A text that has a quote behind a backslash: escaped, there are two backslashes in front of
the quote. -/
theorem loses_escapeQuotes {text : List Code} (inside : [marks.backslash, marks.quote] <:+: text) (rest : List Code) :
    marks.Loses (marks.escapeQuotes text ++ rest) := by
  obtain ⟨front, behind, rfl⟩ := inside
  have parts := marks.loses_append (marks.escapeQuotes front) (marks.loses_backslashes (marks.escapeQuotes behind ++ rest))
  rw [escapeQuotes_append, escapeQuotes_append]
  simpa [escapeQuotes, marks.distinct.symm] using parts

theorem loses_end_quote (front rest : List Code) :
    marks.Loses (marks.escapeQuotes (front ++ [marks.backslash] ++ [marks.backslash]) ++ marks.quote :: rest) := by
  have parts := marks.loses_append (marks.escapeQuotes front) (marks.loses_backslashes rest)
  rw [escapeQuotes_append, escapeQuotes_append]
  simpa [escapeQuotes, marks.distinct.symm] using parts

/-- A text that ends in one backslash is read up to there, and then the end quote becomes a part
of the argument. -/
theorem split_end_backslash {front rest : List Code} (safe : ¬[marks.backslash, marks.quote] <:+: front ++ [marks.quote]) :
    marks.split ⟨some [], 0, true⟩ (marks.escapeQuotes (front ++ [marks.backslash]) ++ marks.quote :: rest) =
      marks.split ⟨some (front ++ [marks.quote]), 0, true⟩ rest := by
  have inside := @split_escapeQuotes Code marks _ front [] (marks.backslash :: marks.quote :: rest) 0 safe
  have odd : (⟨some front, 0 + 1, true⟩ : State Code).backslashes % 2 = 1 := rfl
  have escaped : marks.escapeQuotes (front ++ [marks.backslash]) = marks.escapeQuotes front ++ [marks.backslash] := by
    rw [escapeQuotes_append]
    simp [escapeQuotes, marks.distinct.symm]
  simp only [List.replicate_zero, List.append_nil, List.nil_append] at inside
  rw [escaped, List.append_assoc, List.singleton_append, inside, split, step_backslash, split, marks.step_quote_odd odd]
  simp

/-- An argument in quotes with a backslash in front of a quote or at the end: one of two is lost,
or the end quote becomes a part of the argument. -/
theorem split_enclosed_ne {state : State Code} (fresh : state.Fresh) (blank : marks.blank separator = true)
    {argument : List Code} (quoted : enclosed argument = true)
    (unsafe_text : [marks.backslash, marks.quote] <:+: argument ++ [marks.quote]) (others : List (List Code)) :
    marks.split state (marks.encode enclosed argument ++ marks.joined separator enclosed others) ≠ argument :: others := by
  have line : marks.encode enclosed argument ++ marks.joined separator enclosed others =
      [marks.quote] ++ (marks.escapeQuotes argument ++ marks.quote :: marks.joined separator enclosed others) := by
    simp [encode, quoted]
  rcases marks.backslash_before_quote_iff.mp unsafe_text with ⟨front, rest, rfl⟩ | ⟨front, rfl⟩
  · refine marks.split_ne_of_loses fresh blank ?_
    rw [line]
    exact marks.loses_append _ (marks.loses_escapeQuotes ⟨front, rest, by simp⟩ _)
  · by_cases safe : [marks.backslash, marks.quote] <:+: front ++ [marks.quote]
    · refine marks.split_ne_of_loses fresh blank ?_
      rw [line]
      refine marks.loses_append _ ?_
      rcases marks.backslash_before_quote_iff.mp safe with ⟨before, rest, rfl⟩ | ⟨before, rfl⟩
      · exact marks.loses_escapeQuotes ⟨before, rest ++ [marks.backslash], by simp⟩ _
      · exact marks.loses_end_quote before _
    · intro same
      rw [line, List.singleton_append, marks.split_open_quote fresh, marks.split_end_backslash safe] at same
      have longer := marks.prefix_of_split same
      rw [List.prefix_append_right_inj] at longer
      exact marks.distinct (List.cons_prefix_cons.mp longer).1

theorem weight_lt {text : List Code} (quote : marks.quote ∈ text) : marks.weight text < text.length := by
  obtain ⟨front, rest, rfl⟩ := List.append_of_mem quote
  have first : marks.weight front ≤ front.length := List.countP_le_length
  have second : marks.weight rest ≤ rest.length := List.countP_le_length
  rw [weight_append, weight_cons, if_pos rfl, List.length_append, List.length_cons]
  omega

omit [DecidableEq Code] in
theorem first_blank {text : List Code} (some_blank : ∃ code ∈ text, marks.blank code = true) :
    ∃ front code rest, text = front ++ code :: rest ∧ marks.blank code = true ∧
      ∀ other ∈ front, marks.blank other = false := by
  obtain ⟨code, found⟩ := Option.isSome_iff_exists.mp (List.find?_isSome.mpr some_blank)
  obtain ⟨blank, front, rest, same, whole⟩ := List.find?_eq_some_iff_append.mp found
  exact ⟨front, code, rest, same, blank, fun other member => by simpa using whole other member⟩

/-- An argument as it is, with a quote or a blank: the quote is lost, or the argument ends early. -/
theorem split_bare_ne {state : State Code} (fresh : state.Fresh) (blank : marks.blank separator = true)
    {argument : List Code} (unquoted : enclosed argument = false)
    (marked : marks.quote ∈ argument ∨ ∃ code ∈ argument, marks.blank code = true) (others : List (List Code)) :
    marks.split state (marks.encode enclosed argument ++ marks.joined separator enclosed others) ≠ argument :: others := by
  have line : marks.encode enclosed argument = argument := by simp [encode, unquoted]
  have behind : marks.weight (marks.joined separator enclosed others) ≤ size others :=
    marks.weight_joined_le blank others
  intro same
  by_cases quote : marks.quote ∈ argument
  · have small := marks.split_size state (marks.encode enclosed argument ++ marks.joined separator enclosed others)
    have lighter := marks.weight_lt quote
    rw [same, size_cons, weight_append, line, State.held, fresh.empty, fresh.pending, List.length_nil] at small
    omega
  · obtain ⟨front, code, rest, rfl, separates, whole⟩ := marks.first_blank (marked.resolve_left quote)
    rw [line, List.append_assoc, List.cons_append] at same
    by_cases begun : state.current ≠ none ∨ front ≠ []
    · -- the first argument ends at the blank
      have unquoted_front : marks.quote ∉ front := fun member => quote (List.mem_append_left _ member)
      have bare := marks.split_bare fresh.outside (begun.imp_right .inr) unquoted_front whole
        (show ∀ first ∈ (code :: (rest ++ marks.joined separator enclosed others)).head?, marks.blank first = true by
          simpa using separates)
      rw [same, fresh.empty, fresh.pending] at bare
      have shorter := congrArg List.length (List.cons.inj bare).1
      simp at shorter
    · -- nothing has begun, and the blank gives nothing
      obtain ⟨not_begun, rfl⟩ : state.current = none ∧ front = [] := by simpa using begun
      have nothing : marks.flush state = none := by simp [flush, fresh.pending, not_begun]
      have small := marks.split_size .between (rest ++ marks.joined separator enclosed others)
      have fewer : marks.weight rest ≤ rest.length := List.countP_le_length
      rw [List.nil_append, split, marks.step_blank separates fresh.outside, nothing] at same
      simp only [Option.toList_none, List.nil_append] at same
      rw [same, size_cons, weight_append] at small
      simp [State.held, State.between] at small
      omega

/-- An argument that is not read back is not read back in front of any others. -/
theorem split_encode_ne {state : State Code} (fresh : state.Fresh) (blank : marks.blank separator = true)
    {argument : List Code} (unfaithful : ¬marks.Faithful enclosed argument) (others : List (List Code)) :
    marks.split state (marks.encode enclosed argument ++ marks.joined separator enclosed others) ≠ argument :: others := by
  unfold Faithful at unfaithful
  by_cases quoted : enclosed argument = true
  · rw [if_pos quoted, not_not] at unfaithful
    exact marks.split_enclosed_ne fresh blank quoted unfaithful others
  · rw [if_neg quoted, not_and_or, not_not] at unfaithful
    refine marks.split_bare_ne fresh blank (Bool.eq_false_iff.mpr quoted) ?_ others
    simpa using unfaithful

/-- A line that is built from arguments is split into them if and only if each of them is one
that is read back. -/
theorem split_joined_iff {state : State Code} (fresh : state.Fresh) (nil_enclosed : enclosed [] = true)
    (blank : marks.blank separator = true) (argument : List Code) (others : List (List Code)) :
    marks.split state (marks.encode enclosed argument ++ marks.joined separator enclosed others) = argument :: others ↔
      ∀ other ∈ argument :: others, marks.Faithful enclosed other := by
  induction others generalizing state argument with
  | nil =>
    by_cases faithful : marks.Faithful enclosed argument
    · rw [marks.split_encode fresh nil_enclosed faithful (marks.joined_ends blank [])]
      simpa [joined, following] using faithful
    · have differs := marks.split_encode_ne fresh blank faithful []
      simp [differs, faithful]
  | cons next others ih =>
    by_cases faithful : marks.Faithful enclosed argument
    · have behind : marks.following (marks.joined separator enclosed (next :: others)) =
          marks.split .between (marks.encode enclosed next ++ marks.joined separator enclosed others) := by
        simp [joined, following]
      rw [marks.split_encode fresh nil_enclosed faithful (marks.joined_ends blank (next :: others)), behind,
        List.cons_inj_right, ih State.fresh_between]
      exact ⟨fun rest => List.forall_mem_cons.mpr ⟨faithful, rest⟩, fun whole => (List.forall_mem_cons.mp whole).2⟩
    · have differs := marks.split_encode_ne fresh blank faithful (next :: others)
      simp [differs, faithful]

end Marks
end CommandLine
