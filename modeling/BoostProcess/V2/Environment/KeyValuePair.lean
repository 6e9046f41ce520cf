import BoostProcess.Library.Delimited
import BoostProcess.V2.CStringRef
import BoostProcess.Library.ExclusiveOr

/-! Keys, values and pairs of an environment, and when they compare equal.

A key is a string view, with a size, into a block that goes on behind it. Values and pairs are
references to strings with a terminator. A pair compares by the key and the value that are
split out of it.
-/

set_option autoImplicit false

namespace BoostProcess.V2.Environment

open Delimited ExclusiveOr

variable {w size : Nat}

/-- What differs between the systems: how key_char_traits folds the case of a character, and
`c << 1` as a size_t. -/
structure Traits (w size : Nat) where
  toLower : BitVec w → BitVec w
  toLower_eq_zero : ∀ c, toLower c = 0#w ↔ c = 0#w
  shifted : BitVec w → BitVec size
  linear : Linear shifted
  injective : Function.Injective shifted

/-- `L'='` and `'='` -/
def equalitySign : BitVec w := 61#w

/-- `compare` of the traits for as many characters as both strings have. -/
def compareChars (toLower : BitVec w → BitVec w) : List (BitVec w) → List (BitVec w) → Int
  | x :: xs, y :: ys =>
    if toLower x = toLower y then compareChars toLower xs ys
    else if toLower x < toLower y then -1 else 1
  | _, _ => 0

/-- `operator==` of std::basic_string. -/
def equalStrings (toLower : BitVec w → BitVec w) (l r : List (BitVec w)) : Bool :=
  l.length = r.length ∧ compareChars toLower l r = 0

/-- A key_view: what its block holds from data() on, of which size() characters are the key. -/
structure KeyView (w : Nat) where
  data : List (BitVec w)
  size : Nat
  inside : size ≤ data.length

namespace KeyView

/-- The characters of the key. -/
def chars (v : KeyView w) : List (BitVec w) := v.data.take v.size

/-- `compare` of the string view. -/
def compare (toLower : BitVec w → BitVec w) (l r : KeyView w) : Int :=
  let cmp := compareChars toLower (l.data.take (min l.size r.size)) (r.data.take (min l.size r.size))
  if cmp ≠ 0 then cmp else if l.size = r.size then 0 else if l.size < r.size then -1 else 1

/-- `operator==` of the string view. -/
def equal (toLower : BitVec w → BitVec w) (l r : KeyView w) : Bool :=
  l.size = r.size ∧ l.compare toLower r = 0

end KeyView

/-- An environment::key, which owns its string. -/
structure Key (w : Nat) where
  value : List (BitVec w)

namespace Key

/-- `operator string_view_type`: behind the string there is its terminator. -/
def view (k : Key w) : KeyView w where
  data := k.value ++ [0#w]
  size := k.value.length
  inside := by simp

def equal (toLower : BitVec w → BitVec w) (l r : Key w) : Bool := equalStrings toLower l.value r.value

end Key

/-- An environment::value, which owns its string. -/
structure Value (w : Nat) where
  value : List (BitVec w)

namespace Value

/-- The value_view of `c_str()`. -/
def view (v : Value w) : CStringRef w := .ofBlock v.value

/-- The characters of values are compared as they are. -/
def equal (l r : Value w) : Bool := equalStrings id l.value r.value

end Value

namespace KeyValuePairView

/-- The position at which key() and value() split: a sign in front belongs to the key, if there
is one more. -/
def separator (pair : CStringRef w) : Option Nat :=
  let eq := pair.find equalitySign 0
  if eq = some 0 then (pair.find equalitySign 1).or eq else eq

def key (pair : CStringRef w) : KeyView w where
  data := pair.view
  size := min ((separator pair).getD pair.text.length) pair.text.length
  inside := by simp [CStringRef.view]

/-- `substr(eq + 1)`: without a sign, eq is npos and eq + 1 is 0. -/
def value (pair : CStringRef w) : CStringRef w :=
  match separator pair with
  | none => pair.substr 0
  | some eq => pair.substr (eq + 1)

/-- `compare`; none if it never ends. -/
def compare (toLower : BitVec w → BitVec w) (l r : CStringRef w) : Option Int :=
  let c := (key l).compare toLower (key r)
  if c ≠ 0 then some c else (value l).compare (value r)

/-- `operator==` of pairs and of their views. -/
def equal (toLower : BitVec w → BitVec w) (l r : CStringRef w) : Bool := compare toLower l r = some 0

end KeyValuePairView

/-! ## Where a pair is split -/

/-- At the first sign, unless that one is in front of everything and there is one more: then it
belongs to the key. -/
structure SplitsInto (pair key value : List (BitVec w)) : Prop where
  parts : pair = key ++ equalitySign :: value
  first : equalitySign ∉ key.tail
  leading : key = [] → equalitySign ∉ value

theorem SplitsInto.unique {pair key key' value value' : List (BitVec w)} (split : SplitsInto pair key value)
    (split' : SplitsInto pair key' value') : key = key' ∧ value = value' := by
  have same := split.parts.symm.trans split'.parts
  cases key with
  | nil =>
    cases key' with
    | nil => exact ⟨rfl, (List.cons.inj same).2⟩
    | cons c' key' =>
      -- the sign of the second split would be in the value of the first one
      have behind : value = key' ++ equalitySign :: value' := (List.cons.inj same).2
      exact absurd (by simp [behind]) (split.leading rfl)
  | cons c key =>
    cases key' with
    | nil =>
      have behind : key ++ equalitySign :: value = value' := (List.cons.inj same).2
      exact absurd (by simp [← behind]) (split'.leading rfl)
    | cons c' key' =>
      obtain ⟨char, behind⟩ := List.cons.inj same
      obtain ⟨keys, values⟩ := front_unique split.first split'.first behind
      exact ⟨congrArg₂ List.cons char keys, values⟩

/-! ## What compares equal -/

variable {toLower : BitVec w → BitVec w}

theorem compareChars_eq_zero_iff {l r : List (BitVec w)} (length : l.length = r.length) :
    compareChars toLower l r = 0 ↔ l.map toLower = r.map toLower := by
  induction l generalizing r with
  | nil =>
    obtain rfl := List.length_eq_zero_iff.mp length.symm
    simp [compareChars]
  | cons x xs ih =>
    cases r with
    | nil => simp at length
    | cons y ys =>
      by_cases same : toLower x = toLower y
      · simp [compareChars, same, ih (Nat.succ.inj length)]
      · by_cases less : toLower x < toLower y <;> simp [compareChars, same, less]

theorem equalStrings_iff (l r : List (BitVec w)) : equalStrings toLower l r = true ↔ l.map toLower = r.map toLower := by
  unfold equalStrings
  rw [decide_eq_true_iff]
  constructor
  · rintro ⟨length, same⟩
    exact (compareChars_eq_zero_iff length).mp same
  · intro same
    have length : l.length = r.length := by simpa using congrArg List.length same
    exact ⟨length, (compareChars_eq_zero_iff length).mpr same⟩

namespace KeyView

theorem chars_length (v : KeyView w) : v.chars.length = v.size := by
  simpa [chars] using v.inside

/-- Views compare as 0 when they have the same characters, up to the case. -/
theorem compare_eq_zero_iff (l r : KeyView w) : l.compare toLower r = 0 ↔ l.chars.map toLower = r.chars.map toLower := by
  unfold compare
  by_cases sizes : l.size = r.size
  · have length : l.chars.length = r.chars.length := by rw [chars_length, chars_length, sizes]
    have first : l.data.take (min l.size r.size) = l.chars := by rw [sizes, Nat.min_self, ← sizes, chars]
    have second : r.data.take (min l.size r.size) = r.chars := by rw [sizes, Nat.min_self, chars]
    rw [first, second, ← compareChars_eq_zero_iff length]
    by_cases cmp : compareChars toLower l.chars r.chars = 0 <;> simp [cmp, sizes]
  · have differ : ¬l.chars.map toLower = r.chars.map toLower := by
      intro same
      have length := congrArg List.length same
      simp [chars_length, sizes] at length
    by_cases cmp : compareChars toLower (l.data.take (min l.size r.size)) (r.data.take (min l.size r.size)) = 0
    · by_cases less : l.size < r.size <;> simp [cmp, sizes, less, differ]
    · simp [cmp, differ]

theorem equal_iff (l r : KeyView w) : l.equal toLower r = true ↔ l.chars.map toLower = r.chars.map toLower := by
  unfold equal
  rw [decide_eq_true_iff, compare_eq_zero_iff]
  refine and_iff_right_of_imp fun same => ?_
  have length := congrArg List.length same
  simpa [chars_length] using length

end KeyView

namespace KeyValuePairView

/-- Where a pair is split: nowhere if it has no sign, or at the sign where it ought to be. -/
theorem separator_cases (pair : CStringRef w) :
    (separator pair = none ∧ equalitySign ∉ pair.text) ∨
      ∃ front rest, SplitsInto pair.text front rest ∧ separator pair = some front.length := by
  unfold separator
  rcases pair.find_cases equalitySign (Nat.zero_le _) with ⟨none_found, absent⟩ | ⟨front, rest, split, first, found⟩
  · exact .inl ⟨by simp [none_found], absent⟩
  · rw [List.drop_zero] at split
    rw [Nat.zero_add] at found
    refine .inr ?_
    by_cases in_front : front = []
    · -- the second sign, if there is one
      subst in_front
      have inside : 1 ≤ pair.text.length := by simp [split]
      rcases pair.find_cases equalitySign inside with ⟨none_found, absent⟩ | ⟨more, behind, split_again, free, found_again⟩
      · rw [split] at absent
        exact ⟨[], rest, ⟨split, List.not_mem_nil, fun _ => absent⟩, by simp [found, none_found]⟩
      · rw [split] at split_again
        have rest_split : rest = more ++ equalitySign :: behind := split_again
        refine ⟨equalitySign :: more, behind, ⟨by rw [split, rest_split]; rfl, free, fun empty => ?_⟩, ?_⟩
        · cases empty
        · simp [found, found_again, Nat.add_comm]
    · have later : front.length ≠ 0 := fun length => in_front (List.length_eq_zero_iff.mp length)
      refine ⟨front, rest, ⟨split, fun member => first (List.mem_of_mem_tail member), ?_⟩, by simp [found, later]⟩
      exact fun empty => absurd empty in_front

/-- Without a sign, the whole pair is both key and value; with one it is split there. -/
theorem split_cases (pair : CStringRef w) :
    (equalitySign ∉ pair.text ∧ (key pair).chars = pair.text ∧ (value pair).text = pair.text) ∨
      equalitySign ∈ pair.text ∧ SplitsInto pair.text (key pair).chars (value pair).text := by
  rcases separator_cases pair with ⟨none_found, absent⟩ | ⟨front, rest, split, found⟩
  · refine .inl ⟨absent, ?_, ?_⟩
    · simp [KeyView.chars, key, none_found, CStringRef.view]
    · simp [value, none_found, CStringRef.substr]
  · have keyed : (key pair).chars = front := by
      simp [KeyView.chars, key, found, CStringRef.view, split.parts]
    have valued : (value pair).text = rest := by
      simp [value, found, CStringRef.substr, split.parts]
    refine .inr ⟨by simp [split.parts], ?_⟩
    rwa [keyed, valued]

theorem equal_iff (l r : CStringRef w) :
    equal toLower l r = true ↔
      (key l).chars.map toLower = (key r).chars.map toLower ∧ (value l).text = (value r).text ∧
        (value l).text.length < 2 ^ 32 := by
  unfold equal compare
  rw [decide_eq_true_iff, ← KeyView.compare_eq_zero_iff, ← CStringRef.compare_eq_zero_iff]
  by_cases keys : (key l).compare toLower (key r) = 0 <;> simp [keys]

end KeyValuePairView
end BoostProcess.V2.Environment
