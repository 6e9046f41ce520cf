import BoostProcess.V2.Environment.ValueIterator

/-! key_value_pair: a pair that owns its string, the constructors that put a key in front of a
value, and what key() and value() split out again.
-/

set_option autoImplicit false

namespace BoostProcess.V2.Environment

open Delimited

variable {w : Nat}

/-- A key_value_pair. Its string may hold a terminator. -/
structure KeyValuePair (w : Nat) where
  native : List (BitVec w)
  deriving DecidableEq

namespace KeyValuePair

/-- `find` of std::basic_string. -/
def find (pair : KeyValuePair w) (ch : BitVec w) (pos : Nat) : Option Nat :=
  ((pair.native.drop pos).idxOf? ch).map (pos + ·)

/-- The position at which key() and value() split. -/
def separator (pair : KeyValuePair w) : Option Nat :=
  let eq := pair.find equalitySign 0
  if eq = some 0 then (pair.find equalitySign 1).or eq else eq

def nativeView (pair : KeyValuePair w) : CStringRef w := .ofBlock pair.native

theorem nativeView_length (pair : KeyValuePair w) : pair.nativeView.text.length ≤ pair.native.length :=
  (List.takeWhile_sublist _).length_le

/-- `native_view().substr(0, eq)`, which has at most what is in front of the terminator. -/
def key (pair : KeyValuePair w) : KeyView w where
  data := pair.native ++ [0#w]
  size := min (pair.separator.getD pair.nativeView.text.length) pair.nativeView.text.length
  inside := by
    have := pair.nativeView_length
    simp only [List.length_append, List.length_singleton]
    omega

/-- `native_view().substr(eq + 1)`, which moves a pointer: without a sign, eq + 1 is 0. -/
def value (pair : KeyValuePair w) : CStringRef w :=
  match pair.separator with
  | none => .ofBlock (pair.native.drop 0)
  | some eq => .ofBlock (pair.native.drop (eq + 1))

/-- `key_value_pair(key, value)`; conv_string copies the characters. -/
def ofKeyValue (key : KeyView w) (value : CStringRef w) : KeyValuePair w :=
  ⟨key.chars ++ [equalitySign] ++ value.text⟩

/-- The loop of the constructor from a list: a delimiter is put where the last character so far
is not the sign. -/
def appendValues (delimiter : Delimiter w) (value : List (BitVec w)) : List (List (BitVec w)) → List (BitVec w)
  | [] => value
  | next :: rest =>
    let value := if value.getLast? ≠ some equalitySign then value ++ [delimiter.char] else value
    appendValues delimiter (value ++ next) rest

/-- `key_value_pair(key, {values...})` -/
def ofList (delimiter : Delimiter w) (key : KeyView w) (values : List (List (BitVec w))) : KeyValuePair w :=
  ⟨appendValues delimiter (key.chars ++ [equalitySign]) values⟩

/-! ## The pair and its view -/

/-- The key_value_pair of a reference. -/
def ofRef (s : CStringRef w) : KeyValuePair w := ⟨s.text⟩

theorem nativeView_ofRef (s : CStringRef w) : (ofRef s).nativeView = s := by
  cases s with
  | mk text free =>
    rw [nativeView, CStringRef.mk.injEq]
    exact CStringRef.ofBlock_text free

/-- Without a terminator inside, both kinds of strings find the same. -/
theorem find_ofRef (s : CStringRef w) (ch : BitVec w) {pos : Nat} (inside : pos ≤ s.text.length) :
    (ofRef s).find ch pos = s.find ch pos := by
  unfold find
  rcases s.find_cases ch inside with ⟨none_found, absent⟩ | ⟨front, rest, split, first, found⟩
  · rw [none_found, ofRef, List.idxOf?_eq_none_iff.mpr absent, Option.map_none]
  · rw [found, ofRef, split, idxOf?_behind first, Option.map_some]

theorem separator_ofRef (s : CStringRef w) : (ofRef s).separator = KeyValuePairView.separator s := by
  unfold separator KeyValuePairView.separator
  rw [find_ofRef s equalitySign (Nat.zero_le _)]
  by_cases in_front : s.find equalitySign 0 = some 0
  · have inside : 1 ≤ s.text.length := by
      rcases s.find_cases equalitySign (Nat.zero_le _) with ⟨none_found, -⟩ | ⟨front, rest, split, -, -⟩
      · rw [none_found] at in_front
        cases in_front
      · rw [List.drop_zero] at split
        simp only [split, List.length_append, List.length_cons]
        omega
    simp only [in_front, if_true, find_ofRef s equalitySign inside]
  · simp only [in_front, if_false]

theorem key_ofRef (s : CStringRef w) : (ofRef s).key.chars = (KeyValuePairView.key s).chars := by
  have same := congrArg CStringRef.text (nativeView_ofRef s)
  have string : (ofRef s).native = s.text := rfl
  simp only [KeyView.chars, key, KeyValuePairView.key, separator_ofRef, same, string, CStringRef.view]

theorem value_ofRef (s : CStringRef w) : (ofRef s).value.text = (KeyValuePairView.value s).text := by
  have moved (pos : Nat) : (CStringRef.ofBlock (s.text.drop pos)).text = (s.substr pos).text :=
    CStringRef.ofBlock_text (s.substr pos).free
  unfold value KeyValuePairView.value
  rw [separator_ofRef]
  cases KeyValuePairView.separator s with
  | none => exact moved 0
  | some eq => exact moved (eq + 1)

/-! ## Splitting -/

/-- What key() and value() ought to give for a string, as a pair and as a view. -/
structure Splits (s : CStringRef w) : Prop where
  signed : equalitySign ∈ s.text → SplitsInto s.text (KeyValuePairView.key s).chars (KeyValuePairView.value s).text
  signless : equalitySign ∉ s.text → (KeyValuePairView.key s).chars = s.text ∧ (KeyValuePairView.value s).text = []
  sameKey : (ofRef s).key.chars = (KeyValuePairView.key s).chars
  sameValue : (ofRef s).value.text = (KeyValuePairView.value s).text

/-- They do so where there is a sign. Where there is none, the value is not empty but the whole
string. -/
theorem splits_iff (s : CStringRef w) : Splits s ↔ equalitySign ∈ s.text ∨ s.text = [] := by
  constructor
  · intro splits
    rcases KeyValuePairView.split_cases s with ⟨absent, -, whole⟩ | ⟨sign, -⟩
    · exact .inr (whole.symm.trans (splits.signless absent).2)
    · exact .inl sign
  · intro split_or_empty
    rcases KeyValuePairView.split_cases s with ⟨absent, keyed, whole⟩ | ⟨sign, split⟩
    · have empty : s.text = [] := split_or_empty.resolve_left absent
      exact ⟨fun sign => absurd sign absent, fun _ => ⟨keyed, whole.trans empty⟩, key_ofRef s, value_ofRef s⟩
    · exact ⟨fun _ => split, fun absent => absurd sign absent, key_ofRef s, value_ofRef s⟩

/-- `A` has the value `A`. -/
theorem not_splits_signless : ¬ Splits (CStringRef.ofBlock [65#8]) := by
  intro splits
  have empty := (splits.signless (by decide)).2
  revert empty
  decide

/-! ## A key and a value -/

/-- A key that can have a sign only in front. -/
structure PairKey (w : Nat) where
  view : KeyView w
  free : 0#w ∉ view.chars
  filled : view.chars ≠ []
  first : equalitySign ∉ view.chars.tail

/-- The key of a current directory on Windows. -/
example : PairKey 16 := ⟨Key.view ⟨[61#16, 67#16, 58#16]⟩, by decide, by decide, by decide⟩

/-- 61 is odd, so it is no terminator for characters that have a bit. -/
theorem PairKey.sign_ne_nul (key : PairKey w) : equalitySign ≠ 0#w := by
  intro same
  have number : 61 % 2 ^ w = 0 := by simpa [equalitySign] using congrArg BitVec.toNat same
  cases w with
  | zero =>
    obtain ⟨c, rest, split⟩ := List.exists_cons_of_ne_nil key.filled
    exact key.free (by rw [split, @BitVec.of_length_zero c]; exact List.mem_cons_self)
  | succ bits =>
    have even : 2 ∣ 61 := Nat.dvd_trans (Dvd.intro_left (2 ^ bits) rfl) (Nat.dvd_of_mod_eq_zero number)
    exact absurd even (by decide)

theorem splitsInto_ofKeyValue (key : PairKey w) (value : CStringRef w) :
    SplitsInto (ofKeyValue key.view value).native key.view.chars value.text where
  parts := by simp [ofKeyValue]
  first := key.first
  leading empty := absurd empty key.filled

/-- A key and a value come back from the pair of them and from its view. The sign alone is such a
key, too. -/
theorem roundTrip (key : PairKey w) (value : CStringRef w) :
    let kv := ofKeyValue key.view value
    kv.key.chars = key.view.chars ∧ kv.value.text = value.text ∧
      (KeyValuePairView.key kv.nativeView).chars = key.view.chars ∧
      (KeyValuePairView.value kv.nativeView).text = value.text := by
  intro kv
  have put := splitsInto_ofKeyValue key value
  have free : 0#w ∉ kv.native := by
    rw [put.parts]
    simp only [List.mem_append, List.mem_cons, not_or]
    exact ⟨key.free, key.sign_ne_nul.symm, value.free⟩
  let s : CStringRef w := ⟨kv.native, free⟩
  have viewed : kv.nativeView = s := nativeView_ofRef s
  have sign : equalitySign ∈ s.text := by
    rw [show s.text = kv.native from rfl, put.parts]
    simp
  rw [viewed]
  rcases KeyValuePairView.split_cases s with ⟨absent, -, -⟩ | ⟨-, split⟩
  · exact absurd sign absent
  · obtain ⟨keys, values⟩ := split.unique put
    exact ⟨(key_ofRef s).trans keys, (value_ofRef s).trans values, keys, values⟩

/-! ## A key and a list -/

section
variable {delimiter : Delimiter w}

theorem appendValues_signed {value : List (BitVec w)} (signed : value.getLast? = some equalitySign)
    (next : List (BitVec w)) (rest : List (List (BitVec w))) :
    appendValues delimiter value (next :: rest) = appendValues delimiter (value ++ next) rest := by
  simp [appendValues, signed]

theorem appendValues_unsigned {value : List (BitVec w)} (unsigned : value.getLast? ≠ some equalitySign)
    (next : List (BitVec w)) (rest : List (List (BitVec w))) :
    appendValues delimiter value (next :: rest) = appendValues delimiter (value ++ [delimiter.char] ++ next) rest := by
  rw [appendValues, if_pos unsigned]

/-- A delimiter in front of each value would be the most that the loop puts. -/
theorem appendValues_length_le (delimiter : Delimiter w) (value : List (BitVec w)) (values : List (List (BitVec w))) :
    (appendValues delimiter value values).length ≤ value.length + (following delimiter.char values).length := by
  induction values generalizing value with
  | nil => simp [appendValues, following]
  | cons next rest ih =>
    by_cases signed : value.getLast? = some equalitySign
    · have later := ih (value ++ next)
      rw [appendValues_signed signed, following_cons]
      simp only [List.length_append, List.length_cons] at later ⊢
      omega
    · have later := ih (value ++ [delimiter.char] ++ next)
      rw [appendValues_unsigned signed, following_cons]
      simp only [List.length_append, List.length_cons, List.length_nil] at later ⊢
      omega

/-- Where the loop puts a delimiter in front of each value. -/
def Separated (value : List (BitVec w)) (values : List (List (BitVec w))) : Prop :=
  (values = [] ∨ value.getLast? ≠ some equalitySign) ∧ ∀ other ∈ values.dropLast, other.getLast? ≠ some equalitySign

theorem getLast?_behind (front next : List (BitVec w)) (c : BitVec w) :
    (front ++ [c] ++ next).getLast? = some (next.getLast?.getD c) := by
  cases last : next.getLast? with
  | none =>
    obtain rfl := List.getLast?_eq_none_iff.mp last
    simp
  | some d => rw [List.getLast?_append, last, Option.some_or, Option.getD_some]

theorem separated_cons (value next : List (BitVec w)) (rest : List (List (BitVec w))) :
    Separated (value ++ [delimiter.char] ++ next) rest ↔
      ∀ other ∈ (next :: rest).dropLast, other.getLast? ≠ some equalitySign := by
  cases rest with
  | nil => simp [Separated]
  | cons other rest =>
    have ends : (value ++ [delimiter.char] ++ next).getLast? ≠ some equalitySign ↔ next.getLast? ≠ some equalitySign := by
      rw [getLast?_behind]
      cases next.getLast? with
      | none => simpa using delimiter.ne_sign
      | some c => rfl
    rw [Separated, ends, List.dropLast_cons_cons, List.forall_mem_cons]
    simp

theorem appendValues_eq_iff (value : List (BitVec w)) (values : List (List (BitVec w))) :
    appendValues delimiter value values = value ++ following delimiter.char values ↔ Separated value values := by
  induction values generalizing value with
  | nil => simp [appendValues, following, Separated]
  | cons next rest ih =>
    by_cases signed : value.getLast? = some equalitySign
    · -- a delimiter is missing, and no later step puts one more than there should be
      have missing : ¬ Separated value (next :: rest) := by simp [Separated, signed]
      apply iff_of_false _ missing
      intro same
      have short := appendValues_length_le delimiter (value ++ next) rest
      rw [← appendValues_signed signed, same, following_cons] at short
      simp only [List.length_append, List.length_cons] at short
      omega
    · have whole : value ++ following delimiter.char (next :: rest) =
          value ++ [delimiter.char] ++ next ++ following delimiter.char rest := by simp
      rw [appendValues_unsigned signed, whole, ih, separated_cons]
      simp [Separated, signed]

/-- What the constructor puts behind the sign is free of terminators. -/
theorem appendValues_behind (value : List (BitVec w)) {values : List (List (BitVec w))}
    (free : ∀ text ∈ values, 0#w ∉ text) :
    ∃ behind, appendValues delimiter value values = value ++ behind ∧ 0#w ∉ behind := by
  induction values generalizing value with
  | nil => exact ⟨[], by simp [appendValues], List.not_mem_nil⟩
  | cons next rest ih =>
    obtain ⟨free_next, free_rest⟩ := List.forall_mem_cons.mp free
    by_cases signed : value.getLast? = some equalitySign
    · obtain ⟨behind, whole, free_behind⟩ := ih (value ++ next) free_rest
      refine ⟨next ++ behind, ?_, by simp [free_next, free_behind]⟩
      rw [appendValues_signed signed, whole, List.append_assoc]
    · obtain ⟨behind, whole, free_behind⟩ := ih (value ++ [delimiter.char] ++ next) free_rest
      refine ⟨delimiter.char :: next ++ behind, ?_, ?_⟩
      · rw [appendValues_unsigned signed, whole]
        simp
      · simp [delimiter.ne_nul.symm, free_next, free_behind]

/-- A key without a sign. -/
structure PlainKey (w : Nat) where
  view : KeyView w
  filled : view.chars ≠ []
  signless : equalitySign ∉ view.chars

/-- Such a key may hold a terminator: value() takes the sign behind it. -/
theorem value_behind (key : PlainKey w) {behind : List (BitVec w)} (free : 0#w ∉ behind) :
    (KeyValuePair.mk (key.view.chars ++ [equalitySign] ++ behind)).value.text = behind := by
  have filled : key.view.chars.length ≠ 0 := fun length => key.filled (List.length_eq_zero_iff.mp length)
  have found : (KeyValuePair.mk (key.view.chars ++ [equalitySign] ++ behind)).separator = some key.view.chars.length := by
    simp [separator, find, idxOf?_behind key.signless, filled]
  rw [value, found]
  simp [CStringRef.ofBlock_text free]

/-- What a pair from a list ought to have as its value. -/
structure ListPair (key : PlainKey w) (values : List (Element delimiter)) : Prop where
  joined : (ofList delimiter key.view (Element.texts values)).value.text = [delimiter.char].intercalate (Element.texts values)
  iterated : (Element.texts values).getLast? ≠ some [] →
    ValueView.elements delimiter (ofList delimiter key.view (Element.texts values)).value = some (Element.texts values)

theorem signed_front (front first : List (BitVec w)) :
    (front ++ [equalitySign] ++ first).getLast? ≠ some equalitySign ↔ first ≠ [] ∧ first.getLast? ≠ some equalitySign := by
  rw [getLast?_behind]
  cases last : first.getLast? with
  | none => simp [List.getLast?_eq_none_iff.mp last]
  | some c =>
    have filled : first ≠ [] := by
      intro empty
      simp [empty] at last
    exact (and_iff_right filled).symm

theorem joined_iff (key : PlainKey w) (values : List (Element delimiter)) :
    (ofList delimiter key.view (Element.texts values)).value.text = [delimiter.char].intercalate (Element.texts values) ↔
      (values.length ≤ 1 ∨ (Element.texts values).head? ≠ some []) ∧
        ∀ text ∈ (Element.texts values).dropLast, text.getLast? ≠ some equalitySign := by
  obtain ⟨behind, whole, free⟩ :=
    @appendValues_behind w delimiter (key.view.chars ++ [equalitySign]) _ (Element.texts_free values)
  have valued : (ofList delimiter key.view (Element.texts values)).value.text = behind := by
    rw [ofList, whole]
    exact value_behind key free
  rw [valued]
  cases values with
  | nil =>
    have nothing : behind = [] := by simpa [Element.texts, appendValues] using whole
    simp [nothing, Element.texts]
  | cons first rest =>
    rw [Element.texts_cons, intercalate_cons]
    rw [Element.texts_cons, appendValues_signed (by simp)] at whole
    have here : behind = first.text ++ following delimiter.char (Element.texts rest) ↔
        Separated (key.view.chars ++ [equalitySign] ++ first.text) (Element.texts rest) := by
      rw [← @appendValues_eq_iff w delimiter, whole, List.append_assoc _ first.text, List.append_right_inj]
    rw [here, Separated]
    cases rest with
    | nil => simp [Element.texts]
    | cons next rest =>
      rw [signed_front, Element.texts_cons, List.dropLast_cons_cons, List.forall_mem_cons]
      simp [and_assoc]

/-- It has, unless a delimiter is left out: behind a first value that is empty, or behind a value
that ends with the sign. -/
theorem listPair_iff (key : PlainKey w) (values : List (Element delimiter)) :
    ListPair key values ↔
      (values.length ≤ 1 ∨ (Element.texts values).head? ≠ some []) ∧
        ∀ text ∈ (Element.texts values).dropLast, text.getLast? ≠ some equalitySign := by
  rw [← joined_iff key values]
  constructor
  · intro pair
    exact pair.joined
  · intro joined
    refine ⟨joined, fun filled => ?_⟩
    rw [ValueView.elements_eq_shown, joined]
    cases values with
    | nil => rfl
    | cons first rest =>
      rw [Element.splitOn_intercalate (List.cons_ne_nil _ _), (shown_eq_iff _).mpr filled]

/-- `K` with `a=` and `b` has the value `a=b`. -/
theorem not_listPair_sign : ∃ (key : PlainKey 8) (values : List (Element Delimiter.posix)), ¬ ListPair key values := by
  let key : PlainKey 8 := ⟨Key.view ⟨[75#8]⟩, by decide, by decide⟩
  let first : Element Delimiter.posix := ⟨[97#8, 61#8], by decide, by decide⟩
  let last : Element Delimiter.posix := ⟨[98#8], by decide, by decide⟩
  refine ⟨key, [first, last], fun pair => ?_⟩
  have joined := pair.joined
  revert joined
  decide

end

end KeyValuePair
end BoostProcess.V2.Environment
