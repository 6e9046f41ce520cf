import BoostProcess.V2.Detail.Utf8RoundTrip

/-! The error that conv_string gives for a byte string that is not UTF-8.

Octets are looked at in sequence order, so the first defect decides: an octet that is invalid
where it stands, or an end inside the last sequence. The decoder only meets the defect if the
size pass has left it room.
-/

set_option autoImplicit false

namespace BoostProcess.V2.Detail.Utf8

/-- The first defect of a byte string behind its complete sequences. -/
inductive Defect where
  | invalid
  | incomplete
  deriving DecidableEq, Repr

def Defect.error : Defect → ConvError
  | .invalid => .invalidCharacter
  | .incomplete => .insufficientBuffer

/-- Octets that begin with a defect. -/
inductive Defective : List Octet → Defect → Prop
  | leading {lead : Octet} {rest : List Octet} : invalidLeadingOctet lead = true → Defective (lead :: rest) .invalid
  | continuing {lead octet : Octet} {read rest : List Octet} : invalidLeadingOctet lead = false →
    (∀ other ∈ read, invalidContinuingOctet other = false) → read.length < getContOctetCount lead →
    invalidContinuingOctet octet = true → Defective (lead :: (read ++ octet :: rest)) .invalid
  | incomplete {lead : Octet} {read : List Octet} : invalidLeadingOctet lead = false →
    (∀ other ∈ read, invalidContinuingOctet other = false) → read.length < getContOctetCount lead →
    Defective (lead :: read) .incomplete

/-- Complete sequences, and a defect behind them. -/
structure FirstDefect (octets : List Octet) (sequences : List Sequence) (rest : List Octet) (defect : Defect) : Prop where
  split : octets = sequences.flatMap Sequence.octets ++ rest
  defective : Defective rest defect

/-- The error says what the first defect is. -/
def Classified (octets : List Octet) : Prop :=
  ∀ sequences rest defect, FirstDefect octets sequences rest defect →
    convStringWide octets = .error ⟨defect.error, "convert_to_wide"⟩

/-- There are only single octets in front of a sequence with an invalid octet, and the sequence
announces more octets than there are. -/
def RunsOut (octets : List Octet) : Prop :=
  ∃ sequences lead rest, FirstDefect octets sequences (lead :: rest) .invalid ∧
    (∀ sequence ∈ sequences, sequence.continuing = []) ∧ rest.length + 1 < getOctetCount lead

/-! ## Every byte string has sequences or a defect -/

theorem continuing_cases (octets : List Octet) (count : Nat) :
    (∃ continuing rest, octets = continuing ++ rest ∧ continuing.length = count ∧
      ∀ other ∈ continuing, invalidContinuingOctet other = false) ∨
    (∃ read octet rest, octets = read ++ octet :: rest ∧ read.length < count ∧
      (∀ other ∈ read, invalidContinuingOctet other = false) ∧ invalidContinuingOctet octet = true) ∨
    (octets.length < count ∧ ∀ other ∈ octets, invalidContinuingOctet other = false) := by
  induction count generalizing octets with
  | zero => exact .inl ⟨[], octets, rfl, rfl, by simp⟩
  | succ count ih =>
    cases octets with
    | nil => exact .inr (.inr ⟨Nat.succ_pos count, by simp⟩)
    | cons octet rest =>
      cases valid : invalidContinuingOctet octet with
      | true => exact .inr (.inl ⟨[], octet, rest, rfl, Nat.succ_pos count, by simp, valid⟩)
      | false =>
        rcases ih rest with ⟨continuing, behind, rfl, length, all⟩ | ⟨read, other, behind, rfl, short, all, bad⟩ | ⟨short, all⟩
        · exact .inl ⟨octet :: continuing, behind, rfl, congrArg (· + 1) length, List.forall_mem_cons.mpr ⟨valid, all⟩⟩
        · exact .inr (.inl ⟨octet :: read, other, behind, rfl, Nat.succ_lt_succ short,
            List.forall_mem_cons.mpr ⟨valid, all⟩, bad⟩)
        · exact .inr (.inr ⟨Nat.succ_lt_succ short, List.forall_mem_cons.mpr ⟨valid, all⟩⟩)

theorem sequence_or_defective (lead : Octet) (octets : List Octet) :
    (∃ sequence : Sequence, ∃ rest, lead :: octets = sequence.octets ++ rest) ∨ ∃ defect, Defective (lead :: octets) defect := by
  cases valid : invalidLeadingOctet lead with
  | true => exact .inr ⟨.invalid, .leading valid⟩
  | false =>
    rcases continuing_cases octets (getContOctetCount lead) with
      ⟨continuing, rest, rfl, complete, all⟩ | ⟨read, octet, rest, rfl, short, all, bad⟩ | ⟨short, all⟩
    · have continues : ∀ octet ∈ continuing, 0x80 ≤ octet.toNat ∧ octet.toNat ≤ 0xbf :=
        fun octet member => invalidContinuingOctet_eq_false.mp (all octet member)
      exact .inl ⟨⟨lead, continuing, invalidLeadingOctet_eq_false.mp valid, continues, complete⟩, rest, rfl⟩
    · exact .inr ⟨.invalid, .continuing valid all short bad⟩
    · exact .inr ⟨.incomplete, .incomplete valid all short⟩

theorem sequences_or_defect (octets : List Octet) :
    (∃ sequences : List Sequence, sequences.flatMap Sequence.octets = octets) ∨
      ∃ sequences rest defect, FirstDefect octets sequences rest defect := by
  induction length : octets.length using Nat.strongRecOn generalizing octets with
  | ind size ih =>
    cases octets with
    | nil => exact .inl ⟨[], rfl⟩
    | cons lead behind =>
      rcases sequence_or_defective lead behind with ⟨sequence, rest, split⟩ | ⟨defect, defective⟩
      · have shorter : rest.length < size := by
          rw [← length, split, List.length_append, Sequence.octets_length]
          omega
        rw [split]
        rcases ih rest.length shorter rest rfl with ⟨sequences, same⟩ | ⟨sequences, last, defect, first⟩
        · exact .inl ⟨sequence :: sequences, by rw [List.flatMap_cons, same]⟩
        · refine .inr ⟨sequence :: sequences, last, defect, ?_, first.defective⟩
          rw [List.flatMap_cons, List.append_assoc, ← first.split]
      · exact .inr ⟨[], lead :: behind, defect, rfl, defective⟩

/-! ## What the two passes make of a defect -/

/-- Valid octets only change what has been read so far. -/
theorem getContinuing_passes {read : List Octet} (start : Int) (valid : ∀ other ∈ read, invalidContinuingOctet other = false)
    (left : Nat) :
    ∃ reached, ∀ rest, getContinuing (read ++ rest) (read.length + left) start = getContinuing rest left reached := by
  induction read generalizing start with
  | nil => exact ⟨start, fun rest => by rw [List.nil_append, List.length_nil, Nat.zero_add]⟩
  | cons first read ih =>
    obtain ⟨here, later⟩ := List.forall_mem_cons.mp valid
    obtain ⟨reached, passes⟩ := ih (start * 2 ^ 6 + (first.toNat - 0x80)) later
    refine ⟨reached, fun rest => ?_⟩
    rw [List.cons_append, List.length_cons, Nat.succ_add, getContinuing, here, if_neg Bool.false_ne_true, passes]

theorem getContinuing_invalid {read rest : List Octet} {octet : Octet} {left : Nat} (start : Int)
    (valid : ∀ other ∈ read, invalidContinuingOctet other = false) (short : read.length < left)
    (bad : invalidContinuingOctet octet = true) : getContinuing (read ++ octet :: rest) left start = none := by
  obtain ⟨missing, rfl⟩ := Nat.exists_eq_add_of_lt short
  obtain ⟨reached, passes⟩ := getContinuing_passes start valid (missing + 1)
  exact (passes (octet :: rest)).trans (if_pos bad)

theorem getContinuing_incomplete {read : List Octet} {left : Nat} (start : Int)
    (valid : ∀ other ∈ read, invalidContinuingOctet other = false) (short : read.length < left) :
    ∃ result missing, missing ≠ 0 ∧ getContinuing read left start = some (result, missing, []) := by
  obtain ⟨missing, rfl⟩ := Nat.exists_eq_add_of_lt short
  obtain ⟨reached, passes⟩ := getContinuing_passes start valid (missing + 1)
  refine ⟨reached, missing + 1, Nat.succ_ne_zero missing, ?_⟩
  have ended := passes []
  rw [List.append_nil] at ended
  exact ended

/-- With room for one character more, the decoder meets the defect. -/
theorem convertToWide_defective {rest : List Octet} {defect : Defect} (defective : Defective rest defect) (room : Nat) :
    convertToWide rest (room + 1) = .error defect.error := by
  cases defective with
  | leading bad => simp [convertToWide, bad, Defect.error]
  | @continuing lead octet read rest leads valid short bad =>
    have stopped :=
      @getContinuing_invalid read rest octet _ (lead.toNat - octet1Modifier (getContOctetCount lead)) valid short bad
    simp [convertToWide, leads, stopped, Defect.error]
  | @incomplete lead read leads valid short =>
    obtain ⟨result, missing, some_missing, ended⟩ :=
      getContinuing_incomplete (lead.toNat - octet1Modifier (getContOctetCount lead)) valid short
    simp [convertToWide, leads, ended, some_missing, Defect.error]

theorem convertToWide_no_room {rest : List Octet} {defect : Defect} (defective : Defective rest defect) :
    convertToWide rest 0 = .error .insufficientBuffer := by
  cases defective <;> rfl

theorem sizeAsWide_eq_zero (lead : Octet) (rest : List Octet) :
    sizeAsWide (lead :: rest) = 0 ↔ rest.length + 1 < getOctetCount lead := by
  have := getOctetCount_eq lead
  rw [sizeAsWide]
  split
  · simp_all
  · omega

/-- The size pass counts no more octets than there are sequences, if each is one octet. -/
theorem length_eq_octets_iff (sequences : List Sequence) :
    sequences.length = (sequences.flatMap Sequence.octets).length ↔ ∀ sequence ∈ sequences, sequence.continuing = [] := by
  induction sequences with
  | nil => simp
  | cons sequence others ih =>
    have := length_le_octets others
    rw [List.forall_mem_cons, ← ih, List.flatMap_cons, List.length_append, Sequence.octets_length, List.length_cons,
      ← List.length_eq_zero_iff]
    omega

/-- The decoder has no room left for the defect exactly if the size pass has counted nothing but
the single octets in front of it. -/
theorem convStringWide_defect {octets rest : List Octet} {sequences : List Sequence} {lead : Octet} {defect : Defect}
    (first : FirstDefect octets sequences (lead :: rest) defect) :
    convStringWide octets = .error ⟨
      if (∀ sequence ∈ sequences, sequence.continuing = []) ∧ rest.length + 1 < getOctetCount lead
      then .insufficientBuffer else defect.error, "convert_to_wide"⟩ := by
  have fits := length_le_octets sequences
  obtain ⟨spare, counted⟩ := Nat.exists_eq_add_of_le fits
  have size : sizeAsWide octets = sequences.length + (spare + sizeAsWide (lead :: rest)) := by
    rw [first.split, sizeAsWide_front, counted, Nat.add_assoc]
  have nothing_left : spare + sizeAsWide (lead :: rest) = 0 ↔
      (∀ sequence ∈ sequences, sequence.continuing = []) ∧ rest.length + 1 < getOctetCount lead := by
    rw [← length_eq_octets_iff, ← sizeAsWide_eq_zero]
    omega
  rw [convStringWide, size, first.split, convertToWide_front]
  cases room : spare + sizeAsWide (lead :: rest) with
  | zero => rw [convertToWide_no_room first.defective, if_pos (nothing_left.mp room)]; rfl
  | succ more =>
    rw [convertToWide_defective first.defective, if_neg (mt nothing_left.mpr (by omega))]
    rfl

/-- A byte string that is not UTF-8 has a first defect, and the error is the one of that defect
unless the decoder runs out of room in front of it. -/
theorem classified_iff (octets : List Octet) :
    ((∃ sequences : List Sequence, sequences.flatMap Sequence.octets = octets) ∨
      ∃ sequences rest defect, FirstDefect octets sequences rest defect) ∧
    (Classified octets ↔ ¬ RunsOut octets) := by
  refine ⟨sequences_or_defect octets, ?_⟩
  constructor
  · intro classified runs_out
    obtain ⟨sequences, lead, rest, first, single, short⟩ := runs_out
    have error := classified sequences (lead :: rest) .invalid first
    rw [convStringWide_defect first, if_pos ⟨single, short⟩] at error
    cases error
  · intro enough sequences rest defect first
    cases rest with
    | nil => cases first.defective
    | cons lead rest =>
      rw [convStringWide_defect first]
      split
      · rename_i runs_out
        cases defect with
        | invalid => exact absurd ⟨sequences, lead, rest, first, runs_out⟩ enough
        | incomplete => rfl
      · rfl

/-- A single octet that cannot lead is taken for an incomplete sequence. -/
theorem not_classified_continuing : ¬ Classified [0x80] := by
  intro classified
  have first : FirstDefect [0x80] [] [0x80] .invalid := ⟨rfl, .leading (by decide)⟩
  have error := classified [] [0x80] .invalid first
  rw [convStringWide_defect first, if_pos ⟨by simp, by decide⟩] at error
  cases error

end BoostProcess.V2.Detail.Utf8
