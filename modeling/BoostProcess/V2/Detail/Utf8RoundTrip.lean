import BoostProcess.V2.Detail.Utf8
import Mathlib.Tactic.IntervalCases
import Mathlib.Tactic.NormNum

/-! The byte strings that the UTF-8 decoder accepts, and both round trips.

A byte string is accepted when it is a concatenation of sequences; the encoder writes the
shortest sequence of every character.
-/

set_option autoImplicit false

namespace BoostProcess.V2.Detail.Utf8

theorem getContOctetCount_le (lead : Octet) : getContOctetCount lead ≤ 5 := by
  unfold getContOctetCount getOctetCount
  repeat' split
  all_goals omega

theorem getOctetCount_eq (lead : Octet) : getOctetCount lead = getContOctetCount lead + 1 := by
  unfold getContOctetCount getOctetCount
  repeat' split
  all_goals omega

theorem invalidLeadingOctet_eq_false {lead : Octet} :
    invalidLeadingOctet lead = false ↔ lead.toNat < 0x80 ∨ 0xc0 ≤ lead.toNat ∧ lead.toNat < 0xfe := by
  simp only [invalidLeadingOctet, Bool.or_eq_false_iff, Bool.and_eq_false_iff, decide_eq_false_iff_not]
  omega

theorem invalidContinuingOctet_eq_false {octet : Octet} :
    invalidContinuingOctet octet = false ↔ 0x80 ≤ octet.toNat ∧ octet.toNat ≤ 0xbf := by
  simp only [invalidContinuingOctet, Bool.or_eq_false_iff, decide_eq_false_iff_not]
  omega

theorem octet1Modifier_nonneg (count : Nat) : 0 ≤ octet1Modifier count := by
  unfold octet1Modifier
  split <;> decide

/-- How many first digits the leading octets of a length have room for. -/
def leadRoom : Nat → Nat
  | 0 => 128
  | 1 => 32
  | 2 => 16
  | 3 => 8
  | 4 => 4
  | _ => 2

theorem leadRoom_le (count : Nat) : leadRoom count ≤ 128 := by
  unfold leadRoom
  split <;> decide

/-- The leading octet is the marker of its length plus the first digit. -/
theorem lead_split {lead : Octet} (leads : lead.toNat < 0x80 ∨ 0xc0 ≤ lead.toNat ∧ lead.toNat < 0xfe) :
    ∃ digit, digit < leadRoom (getContOctetCount lead) ∧
      (lead.toNat : Int) = octet1Modifier (getContOctetCount lead) + digit := by
  refine ⟨lead.toNat - (octet1Modifier (getContOctetCount lead)).toNat, ?_⟩
  unfold getContOctetCount getOctetCount
  repeat' split
  all_goals simp only [Nat.reduceSub, leadRoom, octet1Modifier]
  all_goals omega

theorem lead_join {count digit : Nat} (short : count ≤ 5) (small : digit < leadRoom count) :
    ∃ lead : Octet, (lead.toNat : Int) = octet1Modifier count + digit ∧ getContOctetCount lead = count ∧
      (lead.toNat < 0x80 ∨ 0xc0 ≤ lead.toNat ∧ lead.toNat < 0xfe) := by
  refine ⟨UInt8.ofNat ((octet1Modifier count).toNat + digit), ?_⟩
  unfold getContOctetCount getOctetCount
  simp only [UInt8.toNat_ofNat']
  interval_cases count <;> simp only [leadRoom, octet1Modifier] at small ⊢
  all_goals
    refine ⟨by omega, ?_, by omega⟩
    repeat' split
    all_goals omega

/-- The classes of the encoder are the capacities of the sequences. -/
theorem getContOctetOutCount_le_iff {word count : Nat} (fits : word < 2 ^ 31) (short : count ≤ 5) :
    getContOctetOutCount word ≤ count ↔ word < leadRoom count * (2 ^ 6) ^ count := by
  unfold getContOctetOutCount
  interval_cases count <;> simp only [leadRoom] <;> norm_num
  all_goals
    repeat' split
    all_goals omega

theorem getContOctetOutCount_le (word : Int) : getContOctetOutCount word ≤ 5 := by
  unfold getContOctetOutCount
  repeat' split
  all_goals omega

namespace Sequence

theorem digits_length (sequence : Sequence) : sequence.digits.length = sequence.continuing.length :=
  List.length_map _

theorem digits_small (sequence : Sequence) : ∀ digit ∈ sequence.digits, digit < 2 ^ 6 := by
  intro digit member
  obtain ⟨octet, continuing, rfl⟩ := List.mem_map.mp member
  have := sequence.continues octet continuing
  omega

theorem length_le (sequence : Sequence) : sequence.continuing.length ≤ 5 :=
  sequence.complete ▸ getContOctetCount_le sequence.lead

theorem octets_length (sequence : Sequence) : sequence.octets.length = sequence.continuing.length + 1 := rfl

theorem lead_eq (sequence : Sequence) :
    (sequence.lead.toNat : Int) = octet1Modifier sequence.continuing.length + sequence.leadDigit ∧
      sequence.leadDigit < leadRoom sequence.continuing.length := by
  obtain ⟨digit, small, split⟩ := lead_split sequence.leads
  have positive := octet1Modifier_nonneg (getContOctetCount sequence.lead)
  have carried : sequence.leadDigit = digit := by
    unfold leadDigit
    omega
  rw [sequence.complete, carried]
  exact ⟨split, small⟩

/-- The characters of a length fit its class, and wchar_t. -/
theorem value_lt (sequence : Sequence) :
    sequence.value < leadRoom sequence.continuing.length * (2 ^ 6) ^ sequence.continuing.length := by
  have below := Digits.value_lt sequence.digits_small sequence.leadDigit
  have small := sequence.lead_eq.2
  rw [digits_length] at below
  have := below.trans_le (Nat.mul_le_mul_right _ small)
  unfold value
  exact_mod_cast this

theorem value_fits (sequence : Sequence) : 0 ≤ sequence.value ∧ sequence.value ≤ wcharMax := by
  refine ⟨Int.natCast_nonneg _, ?_⟩
  have below := sequence.value_lt
  have short := sequence.length_le
  generalize sequence.continuing.length = count at below short
  interval_cases count <;> norm_num [leadRoom] at below <;> change _ ≤ (0x7fffffff : Int) <;> omega

/-- The encoder's class of the value is never above the length of the sequence. -/
theorem getContOctetOutCount_value_le (sequence : Sequence) :
    getContOctetOutCount sequence.value ≤ sequence.continuing.length := by
  have below := sequence.value_lt
  have fits := sequence.value_fits.2
  unfold value wcharMax at *
  exact (getContOctetOutCount_le_iff (by omega) sequence.length_le).mpr (by exact_mod_cast below)

end Sequence

/-! ## Reading -/

theorem getContinuing_append {continuing rest : List Octet}
    (continues : ∀ octet ∈ continuing, 0x80 ≤ octet.toNat ∧ octet.toNat ≤ 0xbf) (digit : Nat) :
    getContinuing (continuing ++ rest) continuing.length digit =
      some (↑(Digits.value (2 ^ 6) digit (continuing.map fun octet => octet.toNat - 0x80)), 0, rest) := by
  induction continuing generalizing digit with
  | nil => simp [getContinuing, Digits.value]
  | cons octet others ih =>
    have first := continues octet List.mem_cons_self
    have next : (digit : Int) * 2 ^ 6 + (octet.toNat - 0x80) = (digit * 2 ^ 6 + (octet.toNat - 0x80) : Nat) := by
      omega
    simp only [List.cons_append, List.length_cons, getContinuing, invalidContinuingOctet_eq_false.mpr first, next,
      Bool.false_eq_true, if_false, List.map_cons, Digits.value]
    exact ih (fun other member => continues other (List.mem_cons_of_mem octet member)) _

/-- What the loop over the continuing octets has read when it ends. -/
theorem getContinuing_inv {octets rest : List Octet} {left missing : Nat} {start result : Int}
    (read : getContinuing octets left start = some (result, missing, rest)) :
    ∃ continuing, octets = continuing ++ rest ∧ continuing.length + missing = left ∧
      (∀ octet ∈ continuing, 0x80 ≤ octet.toNat ∧ octet.toNat ≤ 0xbf) ∧ (missing ≠ 0 → rest = []) := by
  induction octets generalizing left start with
  | nil =>
    cases left <;> simp only [getContinuing, Option.some.injEq, Prod.mk.injEq] at read <;>
      obtain ⟨-, rfl, rfl⟩ := read <;> exact ⟨[], by simp⟩
  | cons octet others ih =>
    cases left with
    | zero =>
      simp only [getContinuing, Option.some.injEq, Prod.mk.injEq] at read
      obtain ⟨-, rfl, rfl⟩ := read
      exact ⟨[], by simp⟩
    | succ left =>
      simp only [getContinuing] at read
      split at read
      · cases read
      · rename_i valid
        obtain ⟨continuing, rfl, counted, continues, ended⟩ := ih read
        refine ⟨octet :: continuing, rfl, by simp only [List.length_cons]; omega, ?_, ended⟩
        have first := invalidContinuingOctet_eq_false.mp (Bool.eq_false_iff.mpr valid)
        exact List.forall_mem_cons.mpr ⟨first, continues⟩

theorem convertToWide_sequence (sequence : Sequence) (rest : List Octet) (room : Nat) :
    convertToWide (sequence.octets ++ rest) (room + 1) =
      (convertToWide rest room).map fun written => sequence.value :: written := by
  have leads := invalidLeadingOctet_eq_false.mpr sequence.leads
  have carried : (sequence.lead.toNat : Int) - octet1Modifier (getContOctetCount sequence.lead) =
      sequence.leadDigit := by
    rw [← sequence.complete, sequence.lead_eq.1]
    omega
  have read := @getContinuing_append sequence.continuing rest sequence.continues sequence.leadDigit
  rw [sequence.complete] at read
  simp only [Sequence.octets, List.cons_append, convertToWide, leads, carried, read, Bool.false_eq_true, if_false,
    ne_eq, not_true_eq_false, and_false]
  rfl

theorem convertToWide_front (sequences : List Sequence) (rest : List Octet) (room : Nat) :
    convertToWide (sequences.flatMap Sequence.octets ++ rest) (sequences.length + room) =
      (convertToWide rest room).map fun written => sequences.map Sequence.value ++ written := by
  induction sequences with
  | nil =>
    rw [List.flatMap_nil, List.nil_append, List.length_nil, Nat.zero_add]
    cases convertToWide rest room <;> rfl
  | cons sequence others ih =>
    have size : (sequence :: others).length + room = others.length + room + 1 := by
      rw [List.length_cons]
      omega
    rw [List.flatMap_cons, List.append_assoc, size, convertToWide_sequence, ih]
    cases convertToWide rest room <;> rfl

theorem convertToWide_sequences {sequences : List Sequence} {room : Nat} (enough : sequences.length ≤ room) :
    convertToWide (sequences.flatMap Sequence.octets) room = .ok (sequences.map Sequence.value) := by
  obtain ⟨spare, rfl⟩ := Nat.exists_eq_add_of_le enough
  have whole := convertToWide_front sequences [] spare
  rw [List.append_nil] at whole
  rw [whole, convertToWide, Except.map, List.append_nil]

theorem convertToWide_inv {octets : List Octet} {room : Nat} {ws : List Int}
    (decoded : convertToWide octets room = .ok ws) :
    ∃ sequences : List Sequence, sequences.flatMap Sequence.octets = octets ∧ sequences.length ≤ room := by
  induction room generalizing octets ws with
  | zero =>
    cases octets with
    | nil => exact ⟨[], rfl, le_rfl⟩
    | cons lead rest => simp [convertToWide] at decoded
  | succ room ih =>
    cases octets with
    | nil => exact ⟨[], rfl, Nat.zero_le _⟩
    | cons lead rest =>
      simp only [convertToWide] at decoded
      split at decoded
      · cases decoded
      · rename_i leads
        split at decoded
        · cases decoded
        · rename_i ucsResult missing remaining read
          obtain ⟨continuing, rfl, counted, continues, ended⟩ := getContinuing_inv read
          split at decoded
          · cases decoded
          · rename_i whole
            -- nothing is missing, or the input would have ended inside the sequence
            have complete : missing = 0 := by
              by_contra some
              exact whole ⟨ended some, some⟩
            cases later : convertToWide remaining room with
            | error ec => simp [later, Except.map] at decoded
            | ok written =>
              obtain ⟨sequences, rfl, fit⟩ := ih later
              let sequence : Sequence :=
                { lead, continuing, continues
                  leads := invalidLeadingOctet_eq_false.mp (Bool.eq_false_iff.mpr leads)
                  complete := by omega }
              exact ⟨sequence :: sequences, rfl, Nat.succ_le_succ fit⟩

theorem sizeAsWide_sequence (sequence : Sequence) (rest : List Octet) :
    sizeAsWide (sequence.octets ++ rest) = sequence.octets.length + sizeAsWide rest := by
  have counted : getOctetCount sequence.lead = sequence.continuing.length + 1 := by
    rw [getOctetCount_eq, sequence.complete]
  rw [Sequence.octets, List.cons_append, sizeAsWide, counted, if_neg (by simp)]
  simp

theorem sizeAsWide_front (sequences : List Sequence) (rest : List Octet) :
    sizeAsWide (sequences.flatMap Sequence.octets ++ rest) =
      (sequences.flatMap Sequence.octets).length + sizeAsWide rest := by
  induction sequences with
  | nil => simp
  | cons sequence others ih =>
    rw [List.flatMap_cons, List.append_assoc, sizeAsWide_sequence, ih, List.length_append, Nat.add_assoc]

theorem sizeAsWide_sequences (sequences : List Sequence) :
    sizeAsWide (sequences.flatMap Sequence.octets) = (sequences.flatMap Sequence.octets).length := by
  have whole := sizeAsWide_front sequences []
  rwa [List.append_nil, sizeAsWide] at whole

theorem length_le_octets (sequences : List Sequence) :
    sequences.length ≤ (sequences.flatMap Sequence.octets).length := by
  induction sequences with
  | nil => simp
  | cons sequence others ih =>
    simp only [List.flatMap_cons, List.length_append, List.length_cons, Sequence.octets_length]
    omega

theorem convStringWide_eq_ok {octets : List Octet} {ws : List Int} :
    convStringWide octets = .ok ws ↔ convertToWide octets (sizeAsWide octets) = .ok ws := by
  cases converted : convertToWide octets (sizeAsWide octets) <;> simp [convStringWide, Except.mapError, converted]

theorem convStringWide_sequences (sequences : List Sequence) :
    convStringWide (sequences.flatMap Sequence.octets) = .ok (sequences.map Sequence.value) := by
  rw [convStringWide_eq_ok, sizeAsWide_sequences]
  exact convertToWide_sequences (length_le_octets sequences)

theorem convStringWide_inv {octets : List Octet} {ws : List Int} (decoded : convStringWide octets = .ok ws) :
    ∃ sequences : List Sequence, sequences.flatMap Sequence.octets = octets ∧ sequences.map Sequence.value = ws := by
  obtain ⟨sequences, rfl, -⟩ := convertToWide_inv (convStringWide_eq_ok.mp decoded)
  rw [convStringWide_sequences, Except.ok.injEq] at decoded
  exact ⟨sequences, rfl, decoded⟩

/-- The decoder accepts exactly the concatenations of sequences, each read as its value, and
the size pass gives every one of them enough room. -/
theorem convStringWide_accepts (octets : List Octet) :
    (∀ ws, convStringWide octets = .ok ws ↔
      ∃ sequences : List Sequence, sequences.flatMap Sequence.octets = octets ∧ sequences.map Sequence.value = ws) ∧
    ∀ sequences : List Sequence, sequences.flatMap Sequence.octets = octets → sequences.length ≤ sizeAsWide octets := by
  refine ⟨fun ws => ⟨convStringWide_inv, ?_⟩, ?_⟩
  · rintro ⟨sequences, rfl, rfl⟩
    exact convStringWide_sequences sequences
  · rintro sequences rfl
    exact (length_le_octets sequences).trans (sizeAsWide_sequences sequences).ge

/-! ## Writing -/

theorem toChar_natCast (number : Nat) : toChar number = UInt8.ofNat number := by
  apply UInt8.toNat_inj.mp
  simp only [toChar, UInt8.ofInt, UInt8.toNat_ofNat']
  omega

/-- The digits of a character as continuing octets. -/
def continuingOctets (word count : Nat) : List Octet :=
  (Digits.expand (2 ^ 6) word count).map fun digit => UInt8.ofNat (0x80 + digit)

theorem expand_small (word count : Nat) : ∀ digit ∈ Digits.expand (2 ^ 6) word count, digit < 2 ^ 6 := by
  induction count with
  | zero => simp [Digits.expand]
  | succ count ih => exact List.forall_mem_cons.mpr ⟨Nat.mod_lt _ (by decide), ih⟩

theorem putContinuing_eq (word : Nat) {count room : Nat} (enough : count ≤ room) :
    putContinuing word count room = continuingOctets word count := by
  induction count generalizing room with
  | zero => cases room <;> rfl
  | succ count ih =>
    cases room with
    | zero => cases enough
    | succ room =>
      have shifted : (0x80 : Int) + ((word : Int).tdiv (2 ^ (count * 6))).tmod (2 ^ 6) =
          ((0x80 + word / (2 ^ 6) ^ count % 2 ^ 6 : Nat) : Int) := by
        rw [mul_comm, pow_mul]
        push_cast
        rfl
      rw [putContinuing, shifted, toChar_natCast, ih (Nat.le_of_succ_le_succ enough)]
      rfl

/-- What the encoder writes for one character. -/
def encode (word : Nat) : List Octet :=
  let count := getContOctetOutCount word
  toChar (octet1Modifier count + (word / (2 ^ 6) ^ count : Nat)) :: continuingOctets word count

theorem continuingOctets_toNat {word count : Nat} :
    (continuingOctets word count).map (fun octet => octet.toNat - 0x80) = Digits.expand (2 ^ 6) word count := by
  rw [continuingOctets, List.map_map]
  refine (List.map_congr_left fun digit member => ?_).trans (List.map_id _)
  have := expand_small word count digit member
  simp only [Function.comp_apply, UInt8.toNat_ofNat', id_eq]
  omega

theorem first_digit_lt {word : Nat} (fits : word < 2 ^ 31) :
    word / (2 ^ 6) ^ getContOctetOutCount word < leadRoom (getContOctetOutCount word) := by
  have below := (getContOctetOutCount_le_iff fits (getContOctetOutCount_le word)).mp le_rfl
  exact (Nat.div_lt_iff_lt_mul (by positivity)).mpr below

/-- The encoder writes a sequence of the character, as long as its class. -/
theorem encode_sequence {word : Nat} (fits : word < 2 ^ 31) :
    ∃ sequence : Sequence, sequence.octets = encode word ∧ sequence.value = word ∧
      sequence.continuing.length = getContOctetOutCount word := by
  obtain ⟨lead, marked, counted, leads⟩ := lead_join (getContOctetOutCount_le word) (first_digit_lt fits)
  have continues : ∀ octet ∈ continuingOctets word (getContOctetOutCount word), 0x80 ≤ octet.toNat ∧ octet.toNat ≤ 0xbf := by
    intro octet member
    obtain ⟨digit, small, rfl⟩ := List.mem_map.mp member
    have := expand_small _ _ digit small
    simp only [UInt8.toNat_ofNat']
    omega
  have length : (continuingOctets word (getContOctetOutCount word)).length = getContOctetOutCount word := by
    simp [continuingOctets]
  have complete := length.trans counted.symm
  refine ⟨⟨lead, continuingOctets word (getContOctetOutCount word), leads, continues, complete⟩, ?_, ?_, ?_⟩
  · have first : toChar (lead.toNat : Int) = lead := by rw [toChar_natCast, UInt8.ofNat_toNat]
    simp only [Sequence.octets, encode, ← marked, first]
  · have digit : lead.toNat - (octet1Modifier (getContOctetCount lead)).toNat =
        word / (2 ^ 6) ^ getContOctetOutCount word := by
      have := octet1Modifier_nonneg (getContOctetOutCount word)
      rw [counted]
      generalize word / (2 ^ 6) ^ getContOctetOutCount word = first at marked ⊢
      omega
    simp only [Sequence.value, Sequence.leadDigit, Sequence.digits]
    rw [digit, continuingOctets_toNat, Digits.value_expand]
  · simp only [length]

theorem encode_length (word : Nat) : (encode word).length = getContOctetOutCount word + 1 := by
  simp only [encode, continuingOctets, List.length_cons, List.length_map, Digits.expand_length]

theorem sizeAsUtf8_eq (words : List Nat) :
    sizeAsUtf8 (words.map Nat.cast) = (words.flatMap encode).length := by
  induction words with
  | nil => rfl
  | cons word rest ih =>
    simp only [List.map_cons, sizeAsUtf8, ih, List.flatMap_cons, List.length_append, encode_length]

/-- The cast of the first digit to unsigned char cuts nothing off. -/
theorem firstOctet_eq {word : Nat} (fits : word < 2 ^ 31) :
    ((toChar ((word : Int).tdiv (2 ^ (getContOctetOutCount word * 6)))).toNat : Int) =
      (word / (2 ^ 6) ^ getContOctetOutCount word : Nat) := by
  have digit := first_digit_lt fits
  have shifted : (word : Int).tdiv (2 ^ (getContOctetOutCount word * 6)) =
      (word / (2 ^ 6) ^ getContOctetOutCount word : Nat) := by
    rw [mul_comm, pow_mul]
    push_cast
    rfl
  rw [shifted, toChar_natCast, UInt8.toNat_ofNat', Nat.mod_eq_of_lt]
  have := leadRoom_le (getContOctetOutCount word)
  omega

theorem continuingOctets_length (word count : Nat) : (continuingOctets word count).length = count := by
  simp [continuingOctets]

theorem convertToUtf8_words {words : List Nat} (fits : ∀ word ∈ words, word < 2 ^ 31) {room : Nat}
    (enough : (words.flatMap encode).length ≤ room) :
    convertToUtf8 (words.map Nat.cast) room = .ok (words.flatMap encode) := by
  induction words generalizing room with
  | nil => simp [convertToUtf8]
  | cons word rest ih =>
    have small := fits word List.mem_cons_self
    rw [List.flatMap_cons, List.length_append, encode_length] at enough
    cases room with
    | zero => omega
    | succ room =>
      have valid : ¬wcharMax < (word : Int) := by
        change ¬(0x7fffffff : Int) < word
        omega
      have continuing := putContinuing_eq word (show getContOctetOutCount word ≤ room by omega)
      have length := continuingOctets_length word (getContOctetOutCount word)
      have first := firstOctet_eq small
      have later := ih (fun other member => fits other (List.mem_cons_of_mem word member))
        (show (rest.flatMap encode).length ≤ room - getContOctetOutCount word by omega)
      simp only [List.map_cons, convertToUtf8, valid, continuing, length, first, later, if_false, ne_eq,
        not_true_eq_false, and_false]
      rfl

theorem convStringNarrow_words {words : List Nat} (fits : ∀ word ∈ words, word < 2 ^ 31) :
    convStringNarrow (words.map Nat.cast) = .ok (words.flatMap encode) := by
  have written := convertToUtf8_words fits (sizeAsUtf8_eq words).ge
  simp only [convStringNarrow, written, Except.mapError]

/-! ## Both directions -/

/-- The octets that the encoder writes are those of sequences with the values it was given. -/
theorem encode_sequences {words : List Nat} (fits : ∀ word ∈ words, word < 2 ^ 31) :
    ∃ sequences : List Sequence, sequences.flatMap Sequence.octets = words.flatMap encode ∧
      sequences.map Sequence.value = words.map Nat.cast := by
  induction words with
  | nil => exact ⟨[], rfl, rfl⟩
  | cons word rest ih =>
    obtain ⟨sequence, octets, value, -⟩ := encode_sequence (fits word List.mem_cons_self)
    obtain ⟨sequences, others, values⟩ := ih fun other member => fits other (List.mem_cons_of_mem word member)
    refine ⟨sequence :: sequences, ?_, ?_⟩
    · simp only [List.flatMap_cons, octets, others]
    · simp only [List.map_cons, value, values]

/-- Wide characters without a sign are numbers of 31 bits. -/
theorem exists_words {ws : List Int} (fits : ∀ w ∈ ws, 0 ≤ w ∧ w ≤ wcharMax) :
    ∃ words : List Nat, words.map Nat.cast = ws ∧ ∀ word ∈ words, word < 2 ^ 31 := by
  refine ⟨ws.map Int.toNat, ?_, ?_⟩
  · rw [List.map_map]
    refine (List.map_congr_left fun w member => ?_).trans (List.map_id ws)
    exact Int.toNat_of_nonneg (fits w member).1
  · intro word member
    obtain ⟨w, present, rfl⟩ := List.mem_map.mp member
    have : w ≤ 0x7fffffff := (fits w present).2
    omega

theorem convStringWide_words {words : List Nat} (small : ∀ word ∈ words, word < 2 ^ 31) :
    convStringWide (words.flatMap encode) = .ok (words.map Nat.cast) := by
  obtain ⟨sequences, octets, values⟩ := encode_sequences small
  rw [← octets, convStringWide_sequences, values]

/-- Encoding and decoding gives back every wide string that has no negative character. -/
theorem convStringWide_convStringNarrow {ws : List Int} (fits : ∀ w ∈ ws, 0 ≤ w ∧ w ≤ wcharMax) :
    ∃ octets, convStringNarrow ws = .ok octets ∧ convStringWide octets = .ok ws := by
  obtain ⟨words, rfl, small⟩ := exists_words fits
  exact ⟨_, convStringNarrow_words small, convStringWide_words small⟩

/-- One character of each length: the last of its class. -/
theorem convStringWide_convStringNarrow_lengths :
    ∃ octets, convStringNarrow [0x7f, 0x7ff, 0xffff, 0x1fffff, 0x3ffffff, 0x7fffffff] = .ok octets ∧
      convStringWide octets = .ok [0x7f, 0x7ff, 0xffff, 0x1fffff, 0x3ffffff, 0x7fffffff] :=
  convStringWide_convStringNarrow (by decide)

namespace Sequence

/-- The character as a number. -/
def number (sequence : Sequence) : Nat := Digits.value (2 ^ 6) sequence.leadDigit sequence.digits

theorem value_eq (sequence : Sequence) : sequence.value = sequence.number := rfl

theorem number_lt (sequence : Sequence) : sequence.number < 2 ^ 31 := by
  have : (sequence.number : Int) ≤ 0x7fffffff := sequence.value_fits.2
  omega

/-- A sequence as long as the class of its value is what the encoder writes for it. -/
theorem encode_number {sequence : Sequence}
    (exact : getContOctetOutCount sequence.value = sequence.continuing.length) :
    encode sequence.number = sequence.octets := by
  have digits := Digits.expand_value sequence.digits_small sequence.leadDigit
  have first := Digits.value_div sequence.digits_small sequence.leadDigit
  rw [digits_length] at digits first
  rw [value_eq] at exact
  have lead : toChar (octet1Modifier sequence.continuing.length + sequence.leadDigit) = sequence.lead := by
    rw [← sequence.lead_eq.1, toChar_natCast, UInt8.ofNat_toNat]
  have continuing : sequence.digits.map (fun digit => UInt8.ofNat (0x80 + digit)) = sequence.continuing := by
    rw [Sequence.digits, List.map_map]
    refine (List.map_congr_left fun octet member => ?_).trans (List.map_id _)
    have := sequence.continues octet member
    apply UInt8.toNat_inj.mp
    simp only [Function.comp_apply, UInt8.toNat_ofNat', id_eq]
    omega
  simp only [encode, exact, continuingOctets, octets]
  unfold number
  rw [digits, first, lead, continuing]

/-- The encoder's classes measure the shortest sequences. -/
theorem shortest_iff (sequence : Sequence) :
    sequence.Shortest ↔ getContOctetOutCount sequence.value = sequence.continuing.length := by
  constructor
  · intro shortest
    obtain ⟨other, -, value, length⟩ := encode_sequence sequence.number_lt
    have shorter := shortest other value
    have := sequence.getContOctetOutCount_value_le
    rw [octets_length, octets_length, length, ← value_eq] at shorter
    omega
  · intro exact other same
    have := other.getContOctetOutCount_value_le
    rw [same, exact] at this
    simp only [octets_length]
    omega

theorem encode_number_length_le (sequence : Sequence) :
    (encode sequence.number).length ≤ sequence.octets.length := by
  have := sequence.getContOctetOutCount_value_le
  rw [value_eq] at this
  rw [encode_length, octets_length]
  omega

theorem encode_number_iff (sequence : Sequence) :
    (encode sequence.number).length = sequence.octets.length ↔ sequence.Shortest := by
  rw [shortest_iff, encode_length, octets_length, value_eq]
  omega

end Sequence

/-- Decoded sequences are encoded again as they were if and only if all are the shortest. -/
theorem encode_numbers_iff (sequences : List Sequence) :
    (sequences.map Sequence.number).flatMap encode = sequences.flatMap Sequence.octets ↔
      ∀ sequence ∈ sequences, sequence.Shortest := by
  have shorter : ∀ others : List Sequence,
      ((others.map Sequence.number).flatMap encode).length ≤ (others.flatMap Sequence.octets).length := by
    intro others
    induction others with
    | nil => simp
    | cons other others ih =>
      have := other.encode_number_length_le
      simp only [List.map_cons, List.flatMap_cons, List.length_append]
      omega
  induction sequences with
  | nil => simp
  | cons sequence others ih =>
    simp only [List.map_cons, List.flatMap_cons, List.forall_mem_cons]
    constructor
    · intro same
      -- neither part gets longer, so both keep their length
      have total := congrArg List.length same
      have first := sequence.encode_number_length_le
      have rest := shorter others
      simp only [List.length_append] at total
      have length : (encode sequence.number).length = sequence.octets.length := by omega
      exact ⟨sequence.encode_number_iff.mp length, ih.mp (List.append_inj same length).2⟩
    · rintro ⟨first, rest⟩
      rw [ih.mpr rest, Sequence.encode_number (sequence.shortest_iff.mp first)]

theorem numbers_small (sequences : List Sequence) : ∀ word ∈ sequences.map Sequence.number, word < 2 ^ 31 := by
  intro word member
  obtain ⟨sequence, -, rfl⟩ := List.mem_map.mp member
  exact sequence.number_lt

theorem convStringNarrow_values (sequences : List Sequence) :
    convStringNarrow (sequences.map Sequence.value) = .ok ((sequences.map Sequence.number).flatMap encode) := by
  have written := convStringNarrow_words (numbers_small sequences)
  rw [List.map_map] at written
  exact written

theorem convStringWide_numbers (sequences : List Sequence) :
    convStringWide ((sequences.map Sequence.number).flatMap encode) = .ok (sequences.map Sequence.value) := by
  have decoded := convStringWide_words (numbers_small sequences)
  rw [List.map_map] at decoded
  exact decoded

/-- The byte strings that consist of shortest sequences only. -/
def ShortestForm (octets : List Octet) : Prop :=
  ∃ sequences : List Sequence, sequences.flatMap Sequence.octets = octets ∧ ∀ sequence ∈ sequences, sequence.Shortest

/-- A byte string that is decoded to ws and consists of shortest sequences is what ws is encoded to. -/
theorem ShortestForm.encoded {octets : List Octet} {ws : List Int} (shortest : ShortestForm octets)
    (decoded : convStringWide octets = .ok ws) : convStringNarrow ws = .ok octets := by
  obtain ⟨sequences, rfl, all⟩ := shortest
  rw [convStringWide_sequences, Except.ok.injEq] at decoded
  rw [← decoded, convStringNarrow_values, (encode_numbers_iff sequences).mpr all]

/-- Decoding and encoding always succeeds, gives bytes that are decoded to the same text, and gives
the bytes back if and only if they are shortest sequences. No two byte strings of shortest sequences
are decoded to the same text. -/
theorem convStringNarrow_convStringWide {octets : List Octet} {ws : List Int}
    (decoded : convStringWide octets = .ok ws) :
    (∃ encoded, convStringNarrow ws = .ok encoded ∧ convStringWide encoded = .ok ws ∧
      (encoded = octets ↔ ShortestForm octets)) ∧
    ∀ other, convStringWide other = .ok ws → ShortestForm octets → ShortestForm other → other = octets := by
  constructor
  · obtain ⟨sequences, rfl, rfl⟩ := convStringWide_inv decoded
    refine ⟨_, convStringNarrow_values sequences, convStringWide_numbers sequences, ?_, ?_⟩
    · intro same
      exact ⟨sequences, rfl, (encode_numbers_iff sequences).mp same⟩
    · intro shortest
      have encoded := shortest.encoded decoded
      rw [convStringNarrow_values, Except.ok.injEq] at encoded
      exact encoded
  · intro other same first second
    have encoded := second.encoded same
    rw [first.encoded decoded, Except.ok.injEq] at encoded
    exact encoded.symm

/-- The first letter of the narrow string in the test of the conversion. -/
theorem decode_letter : convStringWide [0xd0, 0xa0] = .ok [0x420] := by
  have room : sizeAsWide [0xd0, 0xa0] = 2 := by simp [sizeAsWide, getOctetCount]
  rw [convStringWide_eq_ok, room]
  decide

theorem convStringNarrow_convStringWide_letter :
    (∃ encoded, convStringNarrow [0x420] = .ok encoded ∧ convStringWide encoded = .ok [0x420] ∧
      (encoded = [0xd0, 0xa0] ↔ ShortestForm [0xd0, 0xa0])) ∧
    ∀ other, convStringWide other = .ok [0x420] → ShortestForm [0xd0, 0xa0] → ShortestForm other →
      other = [0xd0, 0xa0] :=
  convStringNarrow_convStringWide decode_letter

/-- Two octets that are decoded to a null character, which is encoded as one octet. -/
theorem overlong_null : convStringWide [0xc0, 0x80] = .ok [0] ∧ convStringNarrow [0] ≠ .ok [0xc0, 0x80] := by
  constructor
  · have room : sizeAsWide [0xc0, 0x80] = 2 := by simp [sizeAsWide, getOctetCount]
    rw [convStringWide_eq_ok, room]
    decide
  · decide

end BoostProcess.V2.Detail.Utf8
