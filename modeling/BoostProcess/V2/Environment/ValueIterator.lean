import BoostProcess.V2.Environment.KeyValuePair

/-! value_iterator: the elements of a value that is a list.

The iterator is a string view that shrinks. Whether it is at the end is decided by what it
holds, since the view of the end is empty.
-/

set_option autoImplicit false

namespace BoostProcess.V2.Environment

open Delimited

variable {w : Nat}

/-- The delimiter of lists on a system; it is not the sign between a key and its value. -/
structure Delimiter (w : Nat) where
  char : BitVec w
  ne_nul : char ≠ 0#w
  ne_sign : char ≠ equalitySign

/-- `':'` -/
def Delimiter.posix : Delimiter 8 := ⟨58#8, by decide, by decide⟩

/-- `L';'` -/
def Delimiter.windows : Delimiter 16 := ⟨59#16, by decide, by decide⟩

/-- A value_iterator, by its view. -/
structure ValueIterator (w : Nat) where
  view : List (BitVec w)
  deriving DecidableEq

namespace ValueIterator

variable (delimiter : Delimiter w)

/-- `operator++` -/
def increment (it : ValueIterator w) : ValueIterator w :=
  match it.view.idxOf? delimiter.char with
  | some delim => ⟨it.view.drop (delim + 1)⟩
  | none => ⟨it.view.drop it.view.length⟩

/-- `operator*` -/
def dereference (it : ValueIterator w) : List (BitVec w) :=
  match it.view.idxOf? delimiter.char with
  | none => it.view
  | some delim => it.view.take delim

theorem increment_shrinks {it : ValueIterator w} (filled : it.view ≠ []) :
    (it.increment delimiter).view.length < it.view.length := by
  have := List.length_pos_iff.mpr filled
  unfold increment
  cases it.view.idxOf? delimiter.char with
  | none => simpa using this
  | some delim =>
    simp only [List.length_drop]
    omega

/-- What a loop from one iterator up to another sees; none if it never ends. An empty view
stays as it is when it is incremented. -/
def iterate (stop it : ValueIterator w) : Option (List (List (BitVec w))) :=
  if it = stop then some []
  else if _filled : it.view = [] then none
  else (iterate stop (it.increment delimiter)).map (it.dereference delimiter :: ·)
termination_by it.view.length
decreasing_by exact increment_shrinks delimiter _filled

end ValueIterator

/-! ## Values as lists -/

namespace Value

def pushBack (delimiter : Delimiter w) (v sv : Value w) : Value w :=
  ⟨v.value ++ [delimiter.char] ++ sv.value⟩

/-- `value_iterator(value_.data())`: the view ends at the first terminator. -/
def beginIterator (v : Value w) : ValueIterator w := ⟨v.view.text⟩

/-- `value_iterator(value_.data(), value_.size())`: there is no substr behind the end of the view. -/
def endIterator (v : Value w) : Option (ValueIterator w) :=
  if v.value.length ≤ v.view.text.length then some ⟨v.view.text.drop v.value.length⟩ else none

/-- A range-based for over a value. -/
def elements (delimiter : Delimiter w) (v : Value w) : Option (List (List (BitVec w))) :=
  v.endIterator.bind fun stop => ValueIterator.iterate delimiter stop v.beginIterator

end Value

namespace ValueView

def beginIterator (v : CStringRef w) : ValueIterator w := ⟨v.text⟩

/-- size() is the length up to the terminator. -/
def endIterator (v : CStringRef w) : ValueIterator w := ⟨v.text.drop v.text.length⟩

/-- A range-based for over a value_view. -/
def elements (delimiter : Delimiter w) (v : CStringRef w) : Option (List (List (BitVec w))) :=
  ValueIterator.iterate delimiter (endIterator v) (beginIterator v)

end ValueView

/-! ## What a loop sees -/

namespace ValueIterator

variable {delimiter : Delimiter w}

theorem increment_behind {front rest : List (BitVec w)} (free : delimiter.char ∉ front) :
    increment delimiter ⟨front ++ delimiter.char :: rest⟩ = ⟨rest⟩ := by
  simp [increment, idxOf?_behind free]

theorem dereference_behind {front rest : List (BitVec w)} (free : delimiter.char ∉ front) :
    dereference delimiter ⟨front ++ delimiter.char :: rest⟩ = front := by
  simp [dereference, idxOf?_behind free]

theorem increment_last {view : List (BitVec w)} (free : delimiter.char ∉ view) :
    increment delimiter ⟨view⟩ = ⟨[]⟩ := by
  simp [increment, List.idxOf?_eq_none_iff.mpr free]

theorem dereference_last {view : List (BitVec w)} (free : delimiter.char ∉ view) :
    dereference delimiter ⟨view⟩ = view := by
  simp [dereference, List.idxOf?_eq_none_iff.mpr free]

theorem iterate_stop (delimiter : Delimiter w) (stop : ValueIterator w) : iterate delimiter stop stop = some [] := by
  rw [iterate, if_pos rfl]

theorem iterate_step {view : List (BitVec w)} (filled : view ≠ []) :
    iterate delimiter ⟨[]⟩ ⟨view⟩ =
      (iterate delimiter ⟨[]⟩ (increment delimiter ⟨view⟩)).map (dereference delimiter ⟨view⟩ :: ·) := by
  have before_end : ¬(⟨view⟩ : ValueIterator w) = ⟨[]⟩ := fun same => filled (congrArg ValueIterator.view same)
  rw [iterate, if_neg before_end, dif_neg filled]

/-- Up to the empty view of an end, a loop sees the pieces between the delimiters, but not a
last one that is empty. -/
theorem iterate_eq_shown (delimiter : Delimiter w) (view : List (BitVec w)) :
    iterate delimiter ⟨[]⟩ ⟨view⟩ = some (shown (view.splitOn delimiter.char)) := by
  induction view using Delimited.induction delimiter.char with
  | last view free =>
    by_cases filled : view = []
    · subst filled
      rw [iterate_stop, List.splitOn_nil]
      rfl
    · rw [iterate_step filled, increment_last free, dereference_last free, iterate_stop, List.splitOn_eq_singleton free]
      simp [shown, filled]
  | behind front rest free ih =>
    rw [iterate_step (List.append_ne_nil_of_right_ne_nil _ (List.cons_ne_nil _ _)), increment_behind free,
      dereference_behind free, ih, List.splitOn_append_cons_self_of_not_mem free,
      shown_cons front (List.splitOn_ne_nil _ _)]
    rfl

end ValueIterator

theorem ValueView.elements_eq_shown (delimiter : Delimiter w) (v : CStringRef w) :
    elements delimiter v = some (shown (v.text.splitOn delimiter.char)) := by
  rw [elements, endIterator, List.drop_length]
  exact ValueIterator.iterate_eq_shown delimiter v.text

theorem Value.elements_eq_shown (delimiter : Delimiter w) {v : Value w} (free : 0#w ∉ v.value) :
    v.elements delimiter = some (shown (v.value.splitOn delimiter.char)) := by
  have whole : v.view.text = v.value := CStringRef.ofBlock_text free
  have stop : v.endIterator = some ⟨[]⟩ := by simp [endIterator, whole]
  rw [elements, stop, beginIterator, whole]
  exact ValueIterator.iterate_eq_shown delimiter v.value

/-! ## Building a list and iterating it -/

/-- A string that can be an element of a list. -/
structure Element (delimiter : Delimiter w) where
  text : List (BitVec w)
  free : 0#w ∉ text
  undelimited : delimiter.char ∉ text

namespace Element

variable {delimiter : Delimiter w}

def toValue (element : Element delimiter) : Value w := ⟨element.text⟩

def texts (elements : List (Element delimiter)) : List (List (BitVec w)) := elements.map text

theorem texts_cons (first : Element delimiter) (rest : List (Element delimiter)) :
    texts (first :: rest) = first.text :: texts rest := rfl

theorem texts_free (elements : List (Element delimiter)) : ∀ text ∈ texts elements, 0#w ∉ text := by
  intro text member
  obtain ⟨element, -, rfl⟩ := List.mem_map.mp member
  exact element.free

theorem splitOn_intercalate {elements : List (Element delimiter)} (some_element : elements ≠ []) :
    ([delimiter.char].intercalate (texts elements)).splitOn delimiter.char = texts elements := by
  apply List.splitOn_intercalate
  · intro text member
    obtain ⟨element, -, rfl⟩ := List.mem_map.mp member
    exact element.undelimited
  · simpa [texts] using some_element

theorem intercalate_free (elements : List (Element delimiter)) :
    0#w ∉ [delimiter.char].intercalate (texts elements) := by
  cases elements with
  | nil => simp [texts]
  | cons first rest =>
    rw [texts_cons, intercalate_cons, following]
    simp only [List.mem_append, List.mem_flatMap, List.mem_cons, not_or, not_exists, not_and]
    refine ⟨first.free, fun text member => ⟨delimiter.ne_nul.symm, ?_⟩⟩
    exact texts_free rest text member

end Element

/-- The value that is built from the first string and push_back of each of the rest. -/
def Value.build {delimiter : Delimiter w} (first : Element delimiter) (rest : List (Element delimiter)) : Value w :=
  rest.foldl (fun v next => v.pushBack delimiter next.toValue) first.toValue

theorem Value.foldl_pushBack {delimiter : Delimiter w} (v : Value w) (rest : List (Element delimiter)) :
    (rest.foldl (fun v next => v.pushBack delimiter next.toValue) v).value =
      v.value ++ following delimiter.char (Element.texts rest) := by
  induction rest generalizing v with
  | nil => simp [Element.texts, following]
  | cons next rest ih =>
    rw [List.foldl_cons, ih]
    simp [pushBack, Element.toValue, Element.texts]

theorem Value.build_eq {delimiter : Delimiter w} (first : Element delimiter) (rest : List (Element delimiter)) :
    (Value.build first rest).value = [delimiter.char].intercalate (Element.texts (first :: rest)) := by
  rw [build, foldl_pushBack]
  exact (intercalate_cons delimiter.char first.text (Element.texts rest)).symm

/-- Iteration of a built value gives the strings back, if the last one is not empty. -/
theorem Value.elements_build_iff {delimiter : Delimiter w} (first : Element delimiter)
    (rest : List (Element delimiter)) :
    (Value.build first rest).elements delimiter = some (Element.texts (first :: rest)) ↔
      (Element.texts (first :: rest)).getLast? ≠ some [] := by
  have free : 0#w ∉ (Value.build first rest).value := by
    rw [build_eq]
    exact Element.intercalate_free (first :: rest)
  rw [elements_eq_shown delimiter free, build_eq, Element.splitOn_intercalate (List.cons_ne_nil _ _), Option.some.injEq,
    shown_eq_iff]

/-- `a:` has one element less than were put into it. -/
theorem Value.elements_build_trailing :
    ∃ first last : Element Delimiter.posix,
      (Value.build first [last]).elements Delimiter.posix ≠ some (Element.texts [first, last]) := by
  let first : Element Delimiter.posix := ⟨[97#8], by decide, by decide⟩
  let last : Element Delimiter.posix := ⟨[], by decide, by decide⟩
  refine ⟨first, last, ?_⟩
  have free : 0#8 ∉ (Value.build first [last]).value := by decide
  rw [elements_eq_shown Delimiter.posix free]
  decide

end BoostProcess.V2.Environment
