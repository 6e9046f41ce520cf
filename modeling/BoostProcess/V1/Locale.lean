import Mathlib.Data.List.Basic

/-! detail::convert between char and wchar_t, with the buffers it makes for the result.

A wide string is a list of code points. The facet is a parameter, and of an output buffer it
is told how much room there is up to the end pointer, which is one to the last element.
-/

set_option autoImplicit false

namespace BoostProcess.V1

/-- `std::codecvt_base::result` -/
inductive CodecvtResult where
  | ok
  /-- `partial` -/
  | partly
  | error
  | noconv
  deriving DecidableEq

/-- `codecvt_type`: what in and out return and what they have written into this much room. -/
structure Codecvt where
  out : List Char → Nat → CodecvtResult × List UInt8
  input : List UInt8 → Nat → CodecvtResult × List Char

/-- The process_error that carries a result of the facet. -/
structure CodecvtError where
  res : CodecvtResult
  what : String
  deriving DecidableEq

def utf8 (st : List Char) : List UInt8 := st.flatMap String.utf8EncodeChar

namespace Codecvt

/-- The contract of a UTF-8 facet for valid text: all of it, or that there was no room for it. -/
structure FollowsUtf8 (cvt : Codecvt) : Prop where
  out_ok : ∀ st room, (utf8 st).length ≤ room → cvt.out st room = (.ok, utf8 st)
  out_partial : ∀ st room, room < (utf8 st).length → (cvt.out st room).1 = .partly
  input_ok : ∀ st room, st.length ≤ room → cvt.input (utf8 st) room = (.ok, st)
  input_partial : ∀ st room, room < st.length → (cvt.input (utf8 st) room).1 = .partly

variable (cvt : Codecvt)

/-- `convert(const wchar_t*, const wchar_t*, char*, char*, cvt)` -/
def convertOut (st : List Char) (room : Nat) : Except CodecvtError (List UInt8) :=
  match cvt.out st room with
  | (.ok, written) => .ok written
  | (res, _) => .error ⟨res, "boost::process codecvt to char"⟩

/-- `convert(const char*, const char*, wchar_t*, wchar_t*, cvt)` -/
def convertIn (st : List UInt8) (room : Nat) : Except CodecvtError (List Char) :=
  match cvt.input st room with
  | (.ok, written) => .ok written
  | (res, _) => .error ⟨res, "boost::process codecvt to wchar_t"⟩

/-- The overloads for a string, a vector and a range of wide characters. The front and the back
of an empty buffer are undefined. -/
def convertToChar (st : List Char) : Option (Except CodecvtError (List UInt8)) :=
  let out := st.length * 2
  if out = 0 then none else some (convertOut cvt st (out - 1))

/-- The overloads for a string, a vector and a range of chars. -/
def convertToWide (st : List UInt8) : Option (Except CodecvtError (List Char)) :=
  let out := st.length + 10
  if out = 0 then none else some (convertIn cvt st (out - 1))

end Codecvt

/-! ## UTF-8 -/

theorem length_le_utf8 (st : List Char) : st.length ≤ (utf8 st).length := by
  induction st with
  | nil => exact Nat.le_refl 0
  | cons c rest ih =>
    have filled := c.utf8Size_pos
    unfold utf8 at ih ⊢
    rw [List.flatMap_cons, List.length_append, String.length_utf8EncodeChar, List.length_cons]
    omega

namespace Codecvt

/-! ## There and back -/

section
variable {cvt : Codecvt} (follows : cvt.FollowsUtf8)
include follows

/-- The bytes need to fit in front of the last of twice as many chars as there are wide ones. -/
theorem convertToChar_fits {st : List Char} (fits : (utf8 st).length < st.length * 2) :
    convertToChar cvt st = some (.ok (utf8 st)) := by
  have room : (utf8 st).length ≤ st.length * 2 - 1 := by omega
  unfold convertToChar convertOut
  dsimp only
  rw [if_neg (by omega), follows.out_ok st _ room]

/-- Otherwise a partial result is thrown. -/
theorem convertToChar_short {st : List Char} (filled : st ≠ []) (short : st.length * 2 ≤ (utf8 st).length) :
    convertToChar cvt st = some (.error ⟨.partly, "boost::process codecvt to char"⟩) := by
  have size := List.length_pos_of_ne_nil filled
  have result := follows.out_partial st (st.length * 2 - 1) (by omega)
  unfold convertToChar convertOut
  dsimp only
  rw [if_neg (by omega)]
  generalize cvt.out st (st.length * 2 - 1) = returned at result
  obtain ⟨res, written⟩ := returned
  subst result
  rfl

/-- The buffer for the way back is never too short. -/
theorem convertToWide_utf8 (st : List Char) : convertToWide cvt (utf8 st) = some (.ok st) := by
  have shorter := length_le_utf8 st
  unfold convertToWide convertIn
  dsimp only
  rw [if_neg (by omega), follows.input_ok st _ (by omega)]

end

/-- The way to char and back succeeds and returns the same string if and only if the UTF-8 form
has fewer bytes than two for each wide character. -/
theorem roundtrip_iff (cvt : Codecvt) (follows : cvt.FollowsUtf8) (st : List Char) :
    (∃ bytes, convertToChar cvt st = some (.ok bytes) ∧ convertToWide cvt bytes = some (.ok st)) ↔
      (utf8 st).length < st.length * 2 := by
  constructor
  · intro succeeds
    obtain ⟨bytes, converted, -⟩ := succeeds
    by_contra short
    by_cases empty : st = []
    · rw [empty] at converted
      cases converted
    · rw [convertToChar_short follows empty (by omega)] at converted
      cases converted
  · intro fits
    exact ⟨utf8 st, convertToChar_fits follows fits, convertToWide_utf8 follows st⟩

/-- A facet that writes whole texts, as long as there is room for them. -/
def utf8Facet : Codecvt where
  out st room := if (utf8 st).length ≤ room then (.ok, utf8 st) else (.partly, [])
  input bytes room :=
    match bytes.toByteArray.utf8Decode? with
    | none => (.error, [])
    | some st => if st.size ≤ room then (.ok, st.toList) else (.partly, [])

theorem utf8Facet_follows : utf8Facet.FollowsUtf8 := by
  have decoded (st : List Char) : (utf8 st).toByteArray.utf8Decode? = some st.toArray := List.utf8Decode?_utf8Encode
  constructor
  · intro st room fits
    exact if_pos fits
  · intro st room short
    unfold utf8Facet
    dsimp only
    rw [if_neg (by omega)]
  · intro st room fits
    unfold utf8Facet
    dsimp only
    rw [decoded]
    simp [fits]
  · intro st room short
    unfold utf8Facet
    dsimp only
    rw [decoded]
    simp [Nat.not_le.mpr short]

/-- `ab` fits: two bytes in the room of three. -/
theorem roundtrip_iff_ascii :
    ∃ bytes, convertToChar utf8Facet ['a', 'b'] = some (.ok bytes) ∧ convertToWide utf8Facet bytes = some (.ok ['a', 'b']) :=
  (roundtrip_iff utf8Facet utf8Facet_follows ['a', 'b']).mpr (by decide)

/-- `é` needs two bytes and has room for one, and the empty string has no buffer. -/
theorem not_roundtrip_twoBytes :
    convertToChar utf8Facet ['é'] = some (.error ⟨.partly, "boost::process codecvt to char"⟩) ∧
      convertToChar utf8Facet [] = none ∧
      ¬ ∃ bytes, convertToChar utf8Facet ['é'] = some (.ok bytes) ∧ convertToWide utf8Facet bytes = some (.ok ['é']) := by
  have thrown : convertToChar utf8Facet ['é'] = some (.error ⟨.partly, "boost::process codecvt to char"⟩) := by decide
  refine ⟨thrown, rfl, ?_⟩
  rintro ⟨bytes, converted, -⟩
  rw [thrown] at converted
  cases converted

end Codecvt
end BoostProcess.V1
