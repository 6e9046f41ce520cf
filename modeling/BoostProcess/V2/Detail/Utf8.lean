import BoostProcess.Library.Digits

/-! Conversion between UTF-8 and wide strings: detail/utf8 where wchar_t has 32 bits.

A wide character is the number in its wchar_t, which has a sign. An output buffer is the
room that is left in it and what has been written so far; a conversion returns what it has
written, and conv_string cuts its buffer to that.
-/

set_option autoImplicit false

namespace BoostProcess.V2.Detail.Utf8

/-- A `char`, which the code casts to unsigned char wherever its sign would matter. -/
abbrev Octet := UInt8

/-- `std::numeric_limits<wchar_t>::max()` -/
def wcharMax : Int := 0x7fffffff

/-- `error::utf8_conv_error` -/
inductive ConvError where
  | insufficientBuffer
  | invalidCharacter
  deriving DecidableEq, Repr

/-- The system_error of `detail::throw_error(ec, what)`. -/
structure Thrown where
  ec : ConvError
  what : String
  deriving DecidableEq, Repr

/-- `static_cast<char>` -/
def toChar (value : Int) : Octet := UInt8.ofInt value

def getContOctetOutCount (word : Int) : Nat :=
  if word < 0x80 then 0
  else if word < 0x800 then 1
  else if word < 0x10000 then 2
  else if word < 0x200000 then 3
  else if word < 0x4000000 then 4
  else 5

def getOctetCount (leadOctet : Octet) : Nat :=
  if leadOctet.toNat ≤ 0x7f then 1
  else if 0xc0 ≤ leadOctet.toNat ∧ leadOctet.toNat ≤ 0xdf then 2
  else if 0xe0 ≤ leadOctet.toNat ∧ leadOctet.toNat ≤ 0xef then 3
  else if 0xf0 ≤ leadOctet.toNat ∧ leadOctet.toNat ≤ 0xf7 then 4
  else if 0xf8 ≤ leadOctet.toNat ∧ leadOctet.toNat ≤ 0xfb then 5
  else 6

def invalidContinuingOctet (octet1 : Octet) : Bool := octet1.toNat < 0x80 || 0xbf < octet1.toNat

def invalidLeadingOctet (octet1 : Octet) : Bool :=
  (0x7f < octet1.toNat && octet1.toNat < 0xc0) || 0xfd < octet1.toNat

def getContOctetCount (leadOctet : Octet) : Nat := getOctetCount leadOctet - 1

/-- `octet1_modifier_table` -/
def octet1Modifier : Nat → Int
  | 0 => 0x00
  | 1 => 0xc0
  | 2 => 0xe0
  | 3 => 0xf0
  | 4 => 0xf8
  | _ => 0xfc

/-- `size_as_utf8`, which never sets ec. -/
def sizeAsUtf8 : List Int → Nat
  | [] => 0
  | word :: rest => getContOctetOutCount word + 1 + sizeAsUtf8 rest

/-- `size_as_wide`: it counts octets, and stops in front of an incomplete sequence. -/
def sizeAsWide : List Octet → Nat
  | [] => 0
  | lead :: rest =>
    if rest.length + 1 < getOctetCount lead then 0
    else getOctetCount lead + sizeAsWide (rest.drop (getOctetCount lead - 1))
termination_by octets => octets.length
decreasing_by simp only [List.length_drop, List.length_cons]; omega

/-- The loop over the continuing octets that are left to write, into the room that is left. -/
def putContinuing (word : Int) : Nat → Nat → List Octet
  | 0, _ => []
  | _, 0 => []
  | left + 1, room + 1 =>
    toChar (0x80 + (word.tdiv (2 ^ (left * 6))).tmod (2 ^ 6)) :: putContinuing word left room

def convertToUtf8 : List Int → Nat → Except ConvError (List Octet)
  | [], _ => .ok []
  | _ :: _, 0 => .error .insufficientBuffer
  | word :: rest, room + 1 =>
    if wcharMax < word then .error .invalidCharacter
    else
      let contOctetCount := getContOctetOutCount word
      let first := toChar (octet1Modifier contOctetCount + (toChar (word.tdiv (2 ^ (contOctetCount * 6)))).toNat)
      let continuing := putContinuing word contOctetCount room
      let room := room - continuing.length
      -- the buffer is full before the character is
      if room = 0 ∧ continuing.length ≠ contOctetCount then .error .insufficientBuffer
      else (convertToUtf8 rest room).map fun written => first :: continuing ++ written

/-- The loop over the continuing octets that are left to read: the character, how many of them
are missing, and the input behind them; none at an octet that does not continue. -/
def getContinuing : List Octet → Nat → Int → Option (Int × Nat × List Octet)
  | rest, 0, ucsResult => some (ucsResult, 0, rest)
  | [], left + 1, ucsResult => some (ucsResult, left + 1, [])
  | octet :: rest, left + 1, ucsResult =>
    if invalidContinuingOctet octet then none
    else getContinuing rest left (ucsResult * 2 ^ 6 + (octet.toNat - 0x80))

def convertToWide : List Octet → Nat → Except ConvError (List Int)
  | [], _ => .ok []
  | _ :: _, 0 => .error .insufficientBuffer
  | lead :: rest, room + 1 =>
    if invalidLeadingOctet lead then .error .invalidCharacter
    else
      let contOctetCount := getContOctetCount lead
      match getContinuing rest contOctetCount (lead.toNat - octet1Modifier contOctetCount) with
      | none => .error .invalidCharacter
      | some (ucsResult, missing, rest) =>
        if rest = [] ∧ missing ≠ 0 then .error .insufficientBuffer
        else (convertToWide rest room).map fun written => ucsResult :: written

/-- `conv_string<char>` of a wide string. -/
def convStringNarrow (data : List Int) : Except Thrown (List Octet) :=
  let reqSize := sizeAsUtf8 data
  (convertToUtf8 data reqSize).mapError fun ec => ⟨ec, "convert_to_utf8"⟩

/-- `conv_string<wchar_t>` of a narrow string. -/
def convStringWide (data : List Octet) : Except Thrown (List Int) :=
  let reqSize := sizeAsWide data
  (convertToWide data reqSize).mapError fun ec => ⟨ec, "convert_to_wide"⟩

/-! ## Sequences -/

/-- A leading octet with as many continuing ones as it announces. -/
structure Sequence where
  lead : Octet
  continuing : List Octet
  leads : lead.toNat < 0x80 ∨ 0xc0 ≤ lead.toNat ∧ lead.toNat < 0xfe
  continues : ∀ octet ∈ continuing, 0x80 ≤ octet.toNat ∧ octet.toNat ≤ 0xbf
  complete : continuing.length = getContOctetCount lead

namespace Sequence

def octets (sequence : Sequence) : List Octet := sequence.lead :: sequence.continuing

/-- What the leading octet carries, the first digit of the character. -/
def leadDigit (sequence : Sequence) : Nat :=
  sequence.lead.toNat - (octet1Modifier (getContOctetCount sequence.lead)).toNat

def digits (sequence : Sequence) : List Nat := sequence.continuing.map fun octet => octet.toNat - 0x80

/-- The character, in digits of six bits. -/
def value (sequence : Sequence) : Int := Digits.value (2 ^ 6) sequence.leadDigit sequence.digits

/-- No sequence with the same value has fewer octets. -/
def Shortest (sequence : Sequence) : Prop :=
  ∀ other : Sequence, other.value = sequence.value → sequence.octets.length ≤ other.octets.length

end Sequence
end BoostProcess.V2.Detail.Utf8
