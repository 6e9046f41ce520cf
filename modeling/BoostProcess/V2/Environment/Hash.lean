import BoostProcess.V2.Environment.KeyValuePair

/-! hash_value and std::hash of keys, values and pairs.

All of them walk over characters up to a terminator. For a key that is not the same as the
characters of its view, whose size the walk does not look at.
-/

set_option autoImplicit false

namespace BoostProcess.V2.Environment

open ExclusiveOr

variable {w size : Nat}

/-- The loop of hash_value; none if it leaves the block. -/
def hashFrom (hashStep : BitVec size → BitVec w → BitVec size) (hash : BitVec size) : List (BitVec w) → Option (BitVec size)
  | [] => none
  | c :: rest => if c = 0#w then some hash else hashFrom hashStep (hashStep hash c) rest

namespace Traits
variable (traits : Traits w size)

/-- `hash_step` for std::char_traits. -/
def hashStep (prev : BitVec size) (c : BitVec w) : BitVec size := prev ^^^ traits.shifted c

/-- `hash_step` for key_char_traits. -/
def hashStepKey (prev : BitVec size) (c : BitVec w) : BitVec size := prev ^^^ traits.shifted (traits.toLower c)

def hashKeyView (value : KeyView w) : Option (BitVec size) := hashFrom traits.hashStepKey 0 value.data

def hashValueView (value : CStringRef w) : Option (BitVec size) := hashFrom traits.hashStep 0 value.view

def hashKeyValuePairView (value : CStringRef w) : Option (BitVec size) := hashFrom traits.hashStep 0 value.view

/-- std::hash of owners hashes the views that they convert to. -/
def hashKey (k : Key w) : Option (BitVec size) := traits.hashKeyView k.view

def hashValue (v : Value w) : Option (BitVec size) := traits.hashValueView v.view

end Traits

/-- Where two objects compare equal, both hashes are numbers, and the same. -/
def Agree (equal : Bool) (first second : Option (BitVec size)) : Prop :=
  equal = true → ∃ number, first = some number ∧ second = some number

/-! ## The systems -/

section
variable {promote : BitVec w → BitVec 32}

/-- An int that keeps the bits of a character is shifted without a loss. -/
theorem shifted_injective (narrow : w < 32) (keeps : ∀ c i, i < w → (promote c).getLsbD i = c.getLsbD i) :
    Function.Injective fun c => (promote c <<< 1).signExtend 64 := by
  intro first second same
  refine BitVec.eq_of_getLsbD_eq fun i inside => ?_
  have bit := congrArg (fun word => word.getLsbD (i + 1)) same
  have wide : i + 1 < 64 := by omega
  have fits : i + 1 < 32 := by omega
  have above : ¬i + 1 < 1 := by omega
  simp only [BitVec.getLsbD_signExtend, BitVec.getLsbD_shiftLeft, wide, fits, above, if_true, decide_true, decide_false,
    Bool.true_and, Bool.not_false, Nat.add_sub_cancel, keeps _ i inside] at bit
  exact bit

theorem shifted_linear (linear : Linear promote) : Linear fun c => (promote c <<< 1).signExtend 64 where
  xor first second := by rw [linear.xor, BitVec.shiftLeft_xor_distrib, BitVec.signExtend_xor]

end

/-- A char is promoted to int, with its sign if it has one, shifted, and converted to size_t. -/
def posix (isSigned : Bool) : Traits 8 64 where
  toLower := id
  toLower_eq_zero _ := Iff.rfl
  shifted c := ((if isSigned then c.signExtend 32 else c.setWidth 32) <<< 1).signExtend 64
  linear := shifted_linear ⟨fun first second => by cases isSigned <;> simp⟩
  injective := by
    refine shifted_injective (by decide) fun c i inside => ?_
    have fits : i < 32 := by omega
    cases isSigned
    · simp only [Bool.false_eq_true, if_false, BitVec.getLsbD_setWidth, fits, decide_true, Bool.true_and]
    · simp only [if_true, BitVec.getLsbD_signExtend, fits, inside, decide_true, Bool.true_and]

/-- A wchar_t has 16 bits and no sign. No character but the terminator folds to the terminator. -/
def windows (towlower : BitVec 16 → BitVec 16) (towlower_eq_zero : ∀ c, towlower c = 0#16 ↔ c = 0#16) : Traits 16 64 where
  toLower := towlower
  toLower_eq_zero := towlower_eq_zero
  shifted c := (c.setWidth 32 <<< 1).signExtend 64
  linear := shifted_linear ⟨fun first second => BitVec.setWidth_xor⟩
  injective := by
    refine shifted_injective (by decide) fun c i inside => ?_
    have fits : i < 32 := by omega
    simp only [BitVec.getLsbD_setWidth, fits, decide_true, Bool.true_and]

/-! ## What is hashed -/

variable (traits : Traits w size)

/-- The walk hashes what is in front of the first terminator, if the block has one. -/
theorem hashFrom_eq (f : BitVec w → BitVec size) (state : BitVec size) (data : List (BitVec w)) :
    hashFrom (fun prev c => prev ^^^ f c) state data =
      if 0#w ∈ data then some (state ^^^ total ((data.takeWhile (· ≠ 0#w)).map f)) else none := by
  induction data generalizing state with
  | nil => simp [hashFrom]
  | cons c rest ih =>
    by_cases terminator : c = 0#w
    · simp [hashFrom, terminator]
    · have other : 0#w ≠ c := fun same => terminator same.symm
      simp [hashFrom, terminator, other, ih, BitVec.xor_assoc]

theorem takeWhile_view (s : CStringRef w) : s.view.takeWhile (· ≠ 0#w) = s.text := by
  have whole : ∀ c ∈ s.text, decide (c ≠ 0#w) = true := fun c member => decide_eq_true fun zero => s.free (zero ▸ member)
  rw [CStringRef.view, List.takeWhile_append_of_pos whole]
  simp

theorem hashFrom_view (s : CStringRef w) : hashFrom traits.hashStep 0 s.view = some (traits.shifted (total s.text)) := by
  have terminated : 0#w ∈ s.view := by simp [CStringRef.view]
  have walk : hashFrom traits.hashStep 0 s.view = _ := hashFrom_eq traits.shifted 0 s.view
  rw [walk, if_pos terminated, takeWhile_view, traits.linear.total_map]
  simp

theorem hashKeyView_eq (v : KeyView w) :
    traits.hashKeyView v =
      if 0#w ∈ v.data then some (traits.shifted (total ((v.data.takeWhile (· ≠ 0#w)).map traits.toLower))) else none := by
  have walk : traits.hashKeyView v = _ := hashFrom_eq (fun c => traits.shifted (traits.toLower c)) 0 v.data
  rw [walk, ← traits.linear.total_map, List.map_map]
  simp [Function.comp_def]

/-- The characters from the end of a view on that are hashed as well. -/
def KeyView.behind (v : KeyView w) : List (BitVec w) := (v.data.takeWhile (· ≠ 0#w)).drop v.size

/-- What is hashed of a view: its characters up to a terminator, and what is behind it. -/
theorem total_hashed (v : KeyView w) :
    total ((v.data.takeWhile (· ≠ 0#w)).map traits.toLower) =
      total ((v.chars.map traits.toLower).takeWhile (· ≠ 0#w)) ^^^ total (v.behind.map traits.toLower) := by
  have kept : (v.chars.map traits.toLower).takeWhile (· ≠ 0#w) =
      ((v.data.takeWhile (· ≠ 0#w)).take v.size).map traits.toLower := by
    rw [List.takeWhile_map, KeyView.chars, List.take_takeWhile]
    congr 2
    funext c
    simp [traits.toLower_eq_zero]
  rw [kept, KeyView.behind, ← total_append, ← List.map_append, List.take_append_drop]

/-- Key views that compare equal hash to the same number if and only if there is a terminator
in both blocks, and what is behind the two views has the same exclusive or. -/
theorem hashKeyView_agrees_iff (l r : KeyView w) :
    Agree (l.equal traits.toLower r) (traits.hashKeyView l) (traits.hashKeyView r) ↔
      (l.equal traits.toLower r = true → 0#w ∈ l.data ∧ 0#w ∈ r.data ∧
        total (l.behind.map traits.toLower) = total (r.behind.map traits.toLower)) := by
  refine forall_congr' fun equal => ?_
  have chars := (KeyView.equal_iff l r).mp equal
  rw [hashKeyView_eq, hashKeyView_eq, total_hashed, total_hashed, chars]
  by_cases first : 0#w ∈ l.data
  · by_cases second : 0#w ∈ r.data
    · simp only [first, second, if_true, Option.some.injEq, true_and, exists_eq_left']
      rw [traits.injective.eq_iff, BitVec.xor_right_inj]
      exact eq_comm
    · simp [second]
  · simp [first]

/-- A key ends at a terminator that comes at the same place in both, if any comes at all. -/
theorem hashKey_agrees (l r : Key w) : Agree (l.equal traits.toLower r) (traits.hashKey l) (traits.hashKey r) := by
  intro equal
  have same := (equalStrings_iff l.value r.value).mp equal
  have views : l.view.equal traits.toLower r.view = true := by
    rw [KeyView.equal_iff]
    simpa [KeyView.chars, Key.view] using same
  have nothing : ∀ k : Key w, k.view.behind = [] := by
    intro k
    have short : ((k.value ++ [0#w]).takeWhile (· ≠ 0#w)).length ≤ k.value.length := by
      rw [List.takeWhile_append]
      split
      · simp
      · exact (List.takeWhile_sublist _).length_le
    exact List.drop_eq_nil_of_le short
  refine (hashKeyView_agrees_iff traits l.view r.view).mpr (fun _ => ⟨?_, ?_, ?_⟩) views
  · simp [Key.view]
  · simp [Key.view]
  · rw [nothing, nothing]

theorem hashValueView_agrees (l r : CStringRef w) :
    Agree (l.equal r) (traits.hashValueView l) (traits.hashValueView r) := by
  intro equal
  refine ⟨_, hashFrom_view traits l, ?_⟩
  rw [(CStringRef.equal_iff l r).mp equal]
  exact hashFrom_view traits r

theorem hashValue_agrees (l r : Value w) : Agree (l.equal r) (traits.hashValue l) (traits.hashValue r) := by
  intro equal
  have same : l.value = r.value := by simpa using (equalStrings_iff l.value r.value).mp equal
  refine ⟨_, hashFrom_view traits l.view, ?_⟩
  rw [Value.view, same]
  exact hashFrom_view traits r.view

/-- What the keys of two pairs have to meet, as the walk does not tell them from the values:
the same exclusive or, and that of the sign where only one of the pairs has a sign. -/
def Balanced (l r : CStringRef w) : Prop :=
  (equalitySign ∈ l.text → equalitySign ∈ r.text →
    total (KeyValuePairView.key l).chars = total (KeyValuePairView.key r).chars) ∧
  (equalitySign ∈ l.text → equalitySign ∉ r.text → total (KeyValuePairView.key l).chars = equalitySign) ∧
  (equalitySign ∉ l.text → equalitySign ∈ r.text → total (KeyValuePairView.key r).chars = equalitySign)

theorem total_pair {pair : CStringRef w} (sign : equalitySign ∈ pair.text) :
    total pair.text =
      total (KeyValuePairView.key pair).chars ^^^ equalitySign ^^^ total (KeyValuePairView.value pair).text := by
  rcases KeyValuePairView.split_cases pair with ⟨absent, -⟩ | ⟨-, split⟩
  · exact absurd sign absent
  · have whole := congrArg total split.parts
    rwa [total_append, total_cons, ← BitVec.xor_assoc] at whole

theorem total_of_no_sign {pair : CStringRef w} (absent : equalitySign ∉ pair.text) :
    total pair.text = total (KeyValuePairView.value pair).text := by
  rcases KeyValuePairView.split_cases pair with ⟨-, -, same⟩ | ⟨sign, -⟩
  · rw [same]
  · exact absurd sign absent

/-- A key and a sign in front of a value change nothing if the key is as the sign. -/
theorem xor_eq_right_iff {key sign value : BitVec w} : key ^^^ sign ^^^ value = value ↔ key = sign := by
  have same := @BitVec.xor_left_inj w (key ^^^ sign) 0#w value
  rw [BitVec.zero_xor] at same
  rw [same, BitVec.xor_eq_zero_iff]

/-- Pairs that compare equal hash to the same number if and only if their keys are balanced. -/
theorem hashKeyValuePairView_agrees_iff (l r : CStringRef w) :
    Agree (KeyValuePairView.equal traits.toLower l r) (traits.hashKeyValuePairView l) (traits.hashKeyValuePairView r) ↔
      (KeyValuePairView.equal traits.toLower l r = true → Balanced l r) := by
  refine forall_congr' fun equal => ?_
  obtain ⟨-, values, -⟩ := (KeyValuePairView.equal_iff l r).mp equal
  have hashes : (∃ number, traits.hashKeyValuePairView l = some number ∧ traits.hashKeyValuePairView r = some number) ↔
      total l.text = total r.text := by
    simp only [Traits.hashKeyValuePairView, hashFrom_view, Option.some.injEq, exists_eq_left']
    rw [traits.injective.eq_iff]
    exact eq_comm
  rw [hashes]
  unfold Balanced
  by_cases first : equalitySign ∈ l.text
  · by_cases second : equalitySign ∈ r.text
    · rw [total_pair first, total_pair second, values, BitVec.xor_left_inj, BitVec.xor_left_inj]
      simp [first, second]
    · rw [total_pair first, total_of_no_sign second, values, xor_eq_right_iff]
      simp [first, second]
  · by_cases second : equalitySign ∈ r.text
    · rw [total_of_no_sign first, total_pair second, values, eq_comm, xor_eq_right_iff]
      simp [first, second]
    · rw [total_of_no_sign first, total_of_no_sign second, values]
      simp [first, second]

/-- Pairs that differ in the case of the key, where the letters of ASCII are folded. -/
example :
    let lower (c : BitVec 16) := if 65#16 ≤ c ∧ c ≤ 90#16 then c + 32#16 else c
    let fold := windows lower fun c => by simp only [lower]; split <;> bv_omega
    KeyValuePairView.equal lower (.ofBlock [65, 61, 49, 0]) (.ofBlock [97, 61, 49, 0]) = true ∧
      fold.hashKeyValuePairView (.ofBlock [65, 61, 49, 0]) ≠ fold.hashKeyValuePairView (.ofBlock [97, 61, 49, 0]) := by
  decide

/-- On POSIX the keys are the same, so only a pair without a sign can hash differently. -/
theorem hashKeyValuePairView_agrees_posix (isSigned : Bool) {l r : CStringRef 8}
    (signs : equalitySign ∈ l.text ↔ equalitySign ∈ r.text) :
    Agree (KeyValuePairView.equal (posix isSigned).toLower l r) ((posix isSigned).hashKeyValuePairView l)
      ((posix isSigned).hashKeyValuePairView r) := by
  refine (hashKeyValuePairView_agrees_iff (posix isSigned) l r).mpr fun equal => ?_
  obtain ⟨keys, -, -⟩ := (KeyValuePairView.equal_iff l r).mp equal
  have same : (KeyValuePairView.key l).chars = (KeyValuePairView.key r).chars := by simpa [posix] using keys
  refine ⟨fun _ _ => by rw [same], fun first second => ?_, fun first second => ?_⟩
  · exact absurd (signs.mp first) second
  · exact absurd (signs.mpr second) first

/-- The hash agrees with the equality for keys, values and their views. For key views and for
pairs it does so exactly where what the walk takes in beyond the key, or does not fold,
cancels out. -/
theorem hash_agrees_iff (traits : Traits w size) :
    (∀ l r : KeyView w,
      Agree (l.equal traits.toLower r) (traits.hashKeyView l) (traits.hashKeyView r) ↔
        (l.equal traits.toLower r = true → 0#w ∈ l.data ∧ 0#w ∈ r.data ∧
          total (l.behind.map traits.toLower) = total (r.behind.map traits.toLower))) ∧
    (∀ l r : Key w, Agree (l.equal traits.toLower r) (traits.hashKey l) (traits.hashKey r)) ∧
    (∀ l r : CStringRef w, Agree (l.equal r) (traits.hashValueView l) (traits.hashValueView r)) ∧
    (∀ l r : Value w, Agree (l.equal r) (traits.hashValue l) (traits.hashValue r)) ∧
    ∀ l r : CStringRef w,
      Agree (KeyValuePairView.equal traits.toLower l r) (traits.hashKeyValuePairView l) (traits.hashKeyValuePairView r) ↔
        (KeyValuePairView.equal traits.toLower l r = true → Balanced l r) :=
  ⟨hashKeyView_agrees_iff traits, hashKey_agrees traits, hashValueView_agrees traits, hashValue_agrees traits,
    hashKeyValuePairView_agrees_iff traits⟩

/-- The key A of a string of its own, and that of the pair A=1. -/
theorem not_hashKeyView_agrees :
    ¬∀ l r : KeyView 8, Agree (l.equal (posix true).toLower r) ((posix true).hashKeyView l) ((posix true).hashKeyView r) := by
  intro agrees
  have key_of_pair := agrees (Key.view ⟨[65]⟩) (KeyValuePairView.key (.ofBlock [65, 61, 49, 0])) (by decide)
  obtain ⟨number, first, second⟩ := key_of_pair
  rw [← second] at first
  revert first
  decide

end BoostProcess.V2.Environment
