import BoostProcess.V2.Detail.Utf8RoundTrip

/-! What convert_to_utf8 stores in its output buffer, also when it gives an error.

The octets go to the buffer one behind the other, so those stored so far say where the next
one goes. Whatever the room, they are the first octets of the whole encoding.
-/

set_option autoImplicit false

namespace BoostProcess.V2.Detail.Utf8

/-- The buffer, the error code and the result of a call. -/
structure Conversion where
  stored : List Octet
  ec : Option ConvError
  returned : Nat
  deriving DecidableEq, Repr

def convertToUtf8Loop : List Int → Nat → List Octet → Conversion
  | [], _, stored => { stored, ec := none, returned := stored.length }
  | _ :: _, 0, stored => { stored, ec := some .insufficientBuffer, returned := stored.length }
  | word :: rest, room + 1, stored =>
    if wcharMax < word then { stored, ec := some .invalidCharacter, returned := 0 }
    else
      let contOctetCount := getContOctetOutCount word
      let first := toChar (octet1Modifier contOctetCount + (toChar (word.tdiv (2 ^ (contOctetCount * 6)))).toNat)
      let continuing := putContinuing word contOctetCount room
      let room := room - continuing.length
      let stored := stored ++ first :: continuing
      if room = 0 ∧ continuing.length ≠ contOctetCount then
        { stored, ec := some .insufficientBuffer, returned := 0 }
      else convertToUtf8Loop rest room stored

def convertToUtf8Call (data : List Int) (maxSize : Nat) : Conversion := convertToUtf8Loop data maxSize []

/-- What the caller keeps of a call. -/
def Conversion.result (call : Conversion) : Except ConvError (List Octet) :=
  match call.ec with
  | none => .ok call.stored
  | some ec => .error ec

theorem convertToUtf8Loop_result (data : List Int) (room : Nat) (stored : List Octet) :
    (convertToUtf8Loop data room stored).result = (convertToUtf8 data room).map (stored ++ ·) := by
  induction data generalizing room stored with
  | nil => simp [convertToUtf8Loop, convertToUtf8, Conversion.result, Except.map]
  | cons word rest ih =>
    cases room with
    | zero => rfl
    | succ room =>
      simp only [convertToUtf8Loop, convertToUtf8]
      split
      · rfl
      · split
        · rfl
        · rw [ih]
          cases convertToUtf8 rest (room - (putContinuing word (getContOctetOutCount word) room).length) with
          | error ec => rfl
          | ok written => simp [Except.map]

/-- The call has the outcome of the conversion that forgets the buffer. -/
theorem convertToUtf8Call_result (data : List Int) (maxSize : Nat) :
    (convertToUtf8Call data maxSize).result = convertToUtf8 data maxSize := by
  rw [convertToUtf8Call, convertToUtf8Loop_result]
  cases convertToUtf8 data maxSize <;> rfl

/-! ## The first octets of the encoding -/

theorem putContinuing_take (word : Nat) (count room : Nat) :
    putContinuing word count room = (continuingOctets word count).take room := by
  induction count generalizing room with
  | zero => cases room <;> rfl
  | succ count ih =>
    cases room with
    | zero => rfl
    | succ room =>
      have head := putContinuing_eq word (le_refl (count + 1))
      simp only [putContinuing, continuingOctets, Digits.expand, List.map_cons, List.cons.injEq] at head
      rw [putContinuing, head.1, ih]
      rfl

/-- A word is encoded whole, or as much of it as there is room for. -/
theorem convertToUtf8Loop_word {word : Nat} (small : word < 2 ^ 31) (rest : List Int) (room : Nat) (stored : List Octet) :
    convertToUtf8Loop (word :: rest) (room + 1) stored =
      if (encode word).length ≤ room + 1 then
        convertToUtf8Loop rest (room + 1 - (encode word).length) (stored ++ encode word)
      else ⟨stored ++ (encode word).take (room + 1), some .insufficientBuffer, 0⟩ := by
  have valid : ¬wcharMax < (word : Int) := by
    change ¬(0x7fffffff : Int) < word
    omega
  have length := continuingOctets_length word (getContOctetOutCount word)
  rw [encode_length, Nat.add_sub_add_right, encode, List.take_succ_cons]
  simp only [convertToUtf8Loop, valid, firstOctet_eq small, putContinuing_take, List.length_take, length, if_false]
  by_cases complete : getContOctetOutCount word ≤ room
  · have written : min room (getContOctetOutCount word) = getContOctetOutCount word := Nat.min_eq_right complete
    have taken := List.take_of_length_le (length.trans_le complete)
    rw [if_pos (Nat.succ_le_succ complete), written, taken]
    simp only [ne_eq, not_true_eq_false, and_false, if_false]
  · have filled : min room (getContOctetOutCount word) = room := Nat.min_eq_left (Nat.le_of_not_le complete)
    have stopped : room ≠ getContOctetOutCount word := by omega
    have beyond : ¬getContOctetOutCount word + 1 ≤ room + 1 := by omega
    simp only [filled, Nat.sub_self, ne_eq, stopped, not_false_eq_true, and_self, if_true, beyond, if_false]

/-- The buffer holds as much of the encoding as there is room for, and the error says whether
that is all of it. -/
theorem convertToUtf8Loop_words {words : List Nat} (fits : ∀ word ∈ words, word < 2 ^ 31) (room : Nat)
    (stored : List Octet) :
    (convertToUtf8Loop (words.map Nat.cast) room stored).stored = stored ++ (words.flatMap encode).take room ∧
    (convertToUtf8Loop (words.map Nat.cast) room stored).ec =
      (if (words.flatMap encode).length ≤ room then none else some .insufficientBuffer) := by
  induction words generalizing room stored with
  | nil => simp [convertToUtf8Loop]
  | cons word rest ih =>
    have small := fits word List.mem_cons_self
    have others : ∀ word ∈ rest, word < 2 ^ 31 := fun other member => fits other (List.mem_cons_of_mem word member)
    rw [List.map_cons, List.flatMap_cons, List.length_append]
    cases room with
    | zero =>
      have filled := encode_length word
      rw [if_neg (by omega)]
      simp [convertToUtf8Loop]
    | succ room =>
      rw [convertToUtf8Loop_word small, List.take_append]
      by_cases complete : (encode word).length ≤ room + 1
      · obtain ⟨contents, error⟩ := ih others (room + 1 - (encode word).length) (stored ++ encode word)
        have enough : (rest.flatMap encode).length ≤ room + 1 - (encode word).length ↔
            (encode word).length + (rest.flatMap encode).length ≤ room + 1 := by
          omega
        rw [if_pos complete, contents, error, List.take_of_length_le complete, List.append_assoc]
        simp only [enough, true_and]
      · have none_left : room + 1 - (encode word).length = 0 := by omega
        rw [if_neg complete, none_left, if_neg (by omega), List.take_zero, List.append_nil]
        exact ⟨rfl, rfl⟩

theorem convertToUtf8Loop_returned (data : List Int) (room : Nat) (stored : List Octet) :
    (convertToUtf8Loop data room stored).ec = none →
      (convertToUtf8Loop data room stored).returned = (convertToUtf8Loop data room stored).stored.length := by
  induction data generalizing room stored with
  | nil => exact fun _ => rfl
  | cons word rest ih =>
    cases room with
    | zero => simp [convertToUtf8Loop]
    | succ room =>
      simp only [convertToUtf8Loop]
      split
      · simp
      · split
        · simp
        · exact ih _ _

/-- A call stores no more than there is room for. With the room that size_as_utf8 asks for it
succeeds and stores exactly that much, and with less it says that the buffer is too small. -/
theorem convertToUtf8Call_bounds {data : List Int} (fits : ∀ word ∈ data, 0 ≤ word ∧ word ≤ 0x7fffffff)
    (maxSize : Nat) :
    (convertToUtf8Call data maxSize).stored.length ≤ maxSize ∧
    (sizeAsUtf8 data ≤ maxSize →
      (convertToUtf8Call data maxSize).ec = none ∧
      (convertToUtf8Call data maxSize).stored.length = sizeAsUtf8 data ∧
      (convertToUtf8Call data maxSize).returned = sizeAsUtf8 data) ∧
    (maxSize < sizeAsUtf8 data → (convertToUtf8Call data maxSize).ec = some .insufficientBuffer) := by
  obtain ⟨words, rfl, small⟩ := exists_words fits
  obtain ⟨contents, error⟩ := convertToUtf8Loop_words small maxSize []
  have returned := convertToUtf8Loop_returned (words.map Nat.cast) maxSize []
  rw [List.nil_append] at contents
  rw [sizeAsUtf8_eq, convertToUtf8Call]
  refine ⟨?_, ?_, ?_⟩
  · rw [contents]
    exact List.length_take_le maxSize _
  · intro enough
    rw [if_pos enough] at error
    rw [List.take_of_length_le enough] at contents
    refine ⟨error, by rw [contents], ?_⟩
    rw [returned error, contents]
  · intro less
    rw [error, if_neg (Nat.not_le_of_lt less)]

/-- A letter of two octets into a buffer of one. -/
theorem convertToUtf8Call_bounds_letter :
    (convertToUtf8Call [0x420] 1).stored.length ≤ 1 ∧
    (sizeAsUtf8 [0x420] ≤ 1 →
      (convertToUtf8Call [0x420] 1).ec = none ∧
      (convertToUtf8Call [0x420] 1).stored.length = sizeAsUtf8 [0x420] ∧
      (convertToUtf8Call [0x420] 1).returned = sizeAsUtf8 [0x420]) ∧
    (1 < sizeAsUtf8 [0x420] → (convertToUtf8Call [0x420] 1).ec = some .insufficientBuffer) :=
  convertToUtf8Call_bounds (by decide) 1

end BoostProcess.V2.Detail.Utf8
