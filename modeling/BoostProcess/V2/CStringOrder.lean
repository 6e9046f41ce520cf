import BoostProcess.V2.CStringRef

/-! basic_cstring_ref as an ordered string: comparison, prefix and search.

Each operation has a loop of its own, with its own test for the terminator. For plain char the
traits compare unsigned values, which is how the characters are kept here.
-/

set_option autoImplicit false

namespace BoostProcess.V2.CStringRef

variable {w : Nat}

/-- The loop of `operator!=`, with an index that is large enough. -/
def notEqualFrom : List (BitVec w) → List (BitVec w) → Bool
  | x :: xs, y :: ys =>
    if x ≠ 0#w ∧ y ≠ 0#w then
      if x ≠ y then true else notEqualFrom xs ys
    else x ≠ y
  | _, _ => true

def notEqual (l r : CStringRef w) : Bool := notEqualFrom l.view r.view

/-- The loop of `starts_with` over a string_view, with what is left of it. The index is an
unsigned int here too. -/
def startsWithFrom (idx : Nat) : List (BitVec w) → List (BitVec w) → Option Bool
  | c :: view, y :: ys =>
    if c ≠ 0#w then
      if c ≠ y then some false
      else if idx + 1 = 2 ^ 32 then none
      else startsWithFrom (idx + 1) view ys
    else some (c ≠ 0#w)
  | _ :: _, [] => some true
  | [], _ => none

def startsWith (s : CStringRef w) (x : List (BitVec w)) : Option Bool :=
  if x.isEmpty then some true else startsWithFrom 0 s.view x

/-- `starts_with` of one character. -/
def startsWithChar (s : CStringRef w) (x : BitVec w) : Bool := s.view.head? = some x

/-! ## Order -/

theorem toNat_pos {c : BitVec w} (char : c ≠ 0#w) : 0 < c.toNat :=
  Nat.pos_of_ne_zero fun zero => char (BitVec.eq_of_toNat_eq zero)

/-- At the first difference the loop ends. -/
theorem compareFrom_apart {idx : Nat} {x y : BitVec w} {xs ys : List (BitVec w)} (char : x ≠ 0#w) (other : y ≠ 0#w)
    (apart : x ≠ y) :
    ∃ value : Int, compareFrom idx (x :: xs) (y :: ys) = some value ∧ compareFrom idx (y :: ys) (x :: xs) = some (-value) ∧
      (value < 0 ↔ x < y) ∧ (0 < value ↔ y < x) := by
  simp only [compareFrom, ne_eq, char, other, apart, apart.symm, not_false_eq_true, and_self, if_true]
  by_cases less : x < y
  · have not_more : ¬y < x := BitVec.lt_asymm less
    exact ⟨-1, by simp [less], by simp [not_more], by simp [less], by simp [not_more]⟩
  · have more : y < x := by
      have : x.toNat ≠ y.toNat := fun equal => apart (BitVec.eq_of_toNat_eq equal)
      simp only [BitVec.lt_def] at less ⊢
      omega
    exact ⟨1, by simp [less], by simp [more], by simp [less], by simp [more]⟩

theorem compareFrom_same {idx : Nat} {x : BitVec w} (char : x ≠ 0#w) (inside : idx + 1 ≠ 2 ^ 32) (xs ys : List (BitVec w)) :
    compareFrom idx (x :: xs) (x :: ys) = compareFrom (idx + 1) xs ys := by
  rw [compareFrom, if_pos ⟨char, char⟩, if_neg (not_not_intro rfl), if_neg inside]

/-- Below the range of the index the loop ends, with a number that has the sign of the order,
and with its opposite when the arguments are exchanged. -/
theorem compareFrom_order {idx : Nat} {first second : List (BitVec w)} (free_first : 0#w ∉ first)
    (free_second : 0#w ∉ second) (short : idx + first.length < 2 ^ 32) :
    ∃ value : Int, compareFrom idx (first ++ [0#w]) (second ++ [0#w]) = some value ∧
      compareFrom idx (second ++ [0#w]) (first ++ [0#w]) = some (-value) ∧
      (value < 0 ↔ first < second) ∧ (0 < value ↔ second < first) := by
  induction first generalizing idx second with
  | nil =>
    cases second with
    | nil => exact ⟨0, by simp [compareFrom], by simp [compareFrom], by simp, by simp⟩
    | cons y ys =>
      have char := (List.ne_of_not_mem_cons free_second).symm
      have positive := toNat_pos char
      refine ⟨-y.toNat, by simp [compareFrom], by simp [compareFrom], ?_, ?_⟩
      · simpa using positive
      · simp
  | cons x xs ih =>
    have char := (List.ne_of_not_mem_cons free_first).symm
    cases second with
    | nil =>
      have positive := toNat_pos char
      refine ⟨x.toNat, by simp [compareFrom], by simp [compareFrom], by simp, ?_⟩
      simpa using positive
    | cons y ys =>
      have other := (List.ne_of_not_mem_cons free_second).symm
      rw [List.cons_append, List.cons_append]
      by_cases same : x = y
      · subst same
        simp only [List.length_cons] at short
        obtain ⟨value, forward, backward, below, above⟩ := @ih (idx + 1) ys (List.not_mem_of_not_mem_cons free_first)
          (List.not_mem_of_not_mem_cons free_second) (by omega)
        have inside : idx + 1 ≠ 2 ^ 32 := by omega
        rw [compareFrom_same char inside, compareFrom_same char inside]
        exact ⟨value, forward, backward, by simpa using below, by simpa using above⟩
      · obtain ⟨value, forward, backward, below, above⟩ :=
          @compareFrom_apart w idx x y (xs ++ [0#w]) (ys ++ [0#w]) char other same
        have apart : ¬y = x := fun equal => same equal.symm
        refine ⟨value, forward, backward, ?_, ?_⟩
        · simpa [List.cons_lt_cons_iff, same] using below
        · simpa [List.cons_lt_cons_iff, apart] using above

theorem compare_value {l : CStringRef w} (r : CStringRef w) (short : l.text.length < 2 ^ 32) :
    ∃ value : Int, l.compare r = some value ∧ r.compare l = some (-value) ∧
      (value < 0 ↔ l.text < r.text) ∧ (0 < value ↔ r.text < l.text) ∧ (value = 0 ↔ l.text = r.text) := by
  obtain ⟨value, forward, backward, below, above⟩ := @compareFrom_order w 0 l.text r.text l.free r.free (by omega)
  have zero := compare_eq_zero_iff l r
  rw [show l.compare r = some value from forward, Option.some_inj] at zero
  refine ⟨value, forward, backward, below, above, zero.trans ?_⟩
  exact and_iff_left short

/-! ## Inequality, prefix and search -/

theorem notEqualFrom_eq (first second : List (BitVec w)) :
    notEqualFrom first second = !equalFrom first second := by
  induction first generalizing second with
  | nil => rfl
  | cons x xs ih =>
    cases second with
    | nil => rfl
    | cons y ys =>
      simp only [notEqualFrom, equalFrom]
      split
      · split
        · rfl
        · exact ih ys
      · by_cases same : x = y <;> simp [same]

theorem notEqual_iff (l r : CStringRef w) : l.notEqual r = false ↔ l.text = r.text := by
  rw [← equal_iff, notEqual, notEqualFrom_eq, equal, Bool.not_eq_false']

theorem startsWithFrom_eq {idx : Nat} {text x : List (BitVec w)} (free : 0#w ∉ text) (free_x : 0#w ∉ x)
    (short : idx + text.length < 2 ^ 32) :
    startsWithFrom idx (text ++ [0#w]) x = some (x.isPrefixOf text) := by
  induction text generalizing idx x with
  | nil => cases x <;> simp [startsWithFrom, List.isPrefixOf]
  | cons c text ih =>
    have char := (List.ne_of_not_mem_cons free).symm
    cases x with
    | nil => simp [startsWithFrom]
    | cons y ys =>
      simp only [List.length_cons] at short
      have inside : ¬idx + 1 = 2 ^ 32 := by omega
      have later := @ih (idx + 1) ys (List.not_mem_of_not_mem_cons free) (List.not_mem_of_not_mem_cons free_x) (by omega)
      by_cases same : c = y
      · subst same
        rw [List.cons_append, startsWithFrom, if_pos char, if_neg (not_not_intro rfl), if_neg inside, later]
        simp [List.isPrefixOf]
      · have apart : ¬y = c := fun equal => same equal.symm
        simp [startsWithFrom, char, same, apart, List.isPrefixOf]

theorem startsWith_eq {s : CStringRef w} {x : List (BitVec w)} (free : 0#w ∉ x) (short : s.text.length < 2 ^ 32) :
    s.startsWith x = some (x.isPrefixOf s.text) := by
  unfold startsWith
  cases x with
  | nil => rfl
  | cons y ys => exact startsWithFrom_eq s.free free (by omega)

theorem startsWithChar_eq {s : CStringRef w} {x : BitVec w} (char : x ≠ 0#w) :
    s.startsWithChar x = (s.text.head? == some x) := by
  unfold startsWithChar view
  cases s.text with
  | nil => simp [char.symm]
  | cons c text => by_cases same : c = x <;> simp [same]

theorem findFrom_eq {ch : BitVec w} {text : List (BitVec w)} (free : 0#w ∉ text) :
    findFrom ch (text ++ [0#w]) = text.findIdx? (· == ch) := by
  induction text with
  | nil => simp [findFrom]
  | cons c text ih =>
    have char := (List.ne_of_not_mem_cons free).symm
    have later := ih (List.not_mem_of_not_mem_cons free)
    rw [List.cons_append, findFrom, if_neg char, later, List.findIdx?_cons]
    simp

/-- `find` from the beginning. -/
theorem find_zero (s : CStringRef w) (ch : BitVec w) : s.find ch 0 = s.text.findIdx? (· == ch) := by
  rw [find, List.drop_zero, view, findFrom_eq s.free]
  simp

/-! ## All of them together -/

/-- What the operations say about three strings. -/
structure Consistent (a b c : CStringRef 8) (ab ba bc ac : Int) : Prop where
  first_second : a.compare b = some ab
  second_first : b.compare a = some ba
  second_third : b.compare c = some bc
  first_third : a.compare c = some ac
  less : ab < 0 ↔ a.text < b.text
  same : ab = 0 ↔ a.text = b.text
  greater : 0 < ab ↔ b.text < a.text
  antisymmetric : ba.sign = -ab.sign
  transitive : ab ≤ 0 → bc ≤ 0 → ac ≤ 0
  transitive_less : ab < 0 → bc < 0 → ac < 0
  total : ab ≤ 0 ∨ ba ≤ 0
  equal_iff_zero : a.equal b = true ↔ ab = 0
  notEqual_iff_zero : a.notEqual b = false ↔ ab = 0
  startsWith_view : ∀ x, 0#8 ∉ x → a.startsWith x = some (x.isPrefixOf a.text)
  startsWithChar_view : ∀ ch, ch ≠ 0#8 → a.startsWithChar ch = (a.text.head? == some ch)
  find_view : ∀ ch, ch ≠ 0#8 → a.find ch 0 = a.text.findIdx? (· == ch)

/-- The comparison is the lexicographic order of the texts, both operators say when it is 0, and
prefix and search give what they give on the text. -/
theorem consistent {a b : CStringRef 8} (c : CStringRef 8) (short_a : a.text.length < 2 ^ 32)
    (short_b : b.text.length < 2 ^ 32) : ∃ ab ba bc ac, Consistent a b c ab ba bc ac := by
  obtain ⟨ab, forward, backward, ab_below, ab_above, ab_zero⟩ := compare_value b short_a
  obtain ⟨bc, behind, -, bc_below, bc_above, -⟩ := compare_value c short_b
  obtain ⟨ac, across, -, ac_below, ac_above, -⟩ := compare_value c short_a
  have ab_le : ab ≤ 0 ↔ a.text ≤ b.text := by rw [← List.not_lt, ← ab_above, Int.not_lt]
  have bc_le : bc ≤ 0 ↔ b.text ≤ c.text := by rw [← List.not_lt, ← bc_above, Int.not_lt]
  have ac_le : ac ≤ 0 ↔ a.text ≤ c.text := by rw [← List.not_lt, ← ac_above, Int.not_lt]
  refine ⟨ab, -ab, bc, ac, ?_⟩
  constructor
  case first_second => exact forward
  case second_first => exact backward
  case second_third => exact behind
  case first_third => exact across
  case less => exact ab_below
  case same => exact ab_zero
  case greater => exact ab_above
  case antisymmetric => exact Int.sign_neg ab
  case transitive =>
    rw [ab_le, bc_le, ac_le]
    exact List.le_trans
  case transitive_less =>
    rw [ab_below, bc_below, ac_below]
    exact List.lt_trans
  case total => omega
  case equal_iff_zero => rw [ab_zero, equal_iff]
  case notEqual_iff_zero => rw [ab_zero, notEqual_iff]
  case startsWith_view => exact fun x free => startsWith_eq free short_a
  case startsWithChar_view => exact fun ch char => startsWithChar_eq char
  case find_view => exact fun ch _ => find_zero a ch

/-- A character above 0x7f is greater than a letter. -/
theorem consistent_letters :
    ∃ ab ba bc ac, Consistent (ofBlock [0xff#8]) (ofBlock [0x61#8, 0x61#8]) (ofBlock [0x61#8]) ab ba bc ac :=
  consistent _ (by decide) (by decide)

end BoostProcess.V2.CStringRef
