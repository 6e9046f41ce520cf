import Mathlib.Data.UInt
import Mathlib.Data.List.TakeWhile

/-! Decimal numbers in C strings: what `%d` prints, and what strtol and strtoul read.

A string is the characters in front of its terminator. Characters are those of the C locale,
long has 64 bits and int has 32.
-/

set_option autoImplicit false

namespace Decimal

def isDigit (c : UInt8) : Bool := 48 ≤ c.toNat && c.toNat ≤ 57

def isSpace (c : UInt8) : Bool := c.toNat = 32 || (9 ≤ c.toNat && c.toNat ≤ 13)

/-- The number that digits stand for. -/
def value (digits : List UInt8) : Nat := digits.foldl (fun number c => 10 * number + (c.toNat - 48)) 0

/-- The text of a number. -/
def text (number : Nat) : List UInt8 := (Nat.toDigits 10 number).map Char.toUInt8

/-- What is at the start of a string behind its blanks: whether there is a minus, and a number. -/
def scan (s : List UInt8) : Bool × Nat :=
  let s := s.dropWhile isSpace
  if s.head? = some 45 then (true, value (s.tail.takeWhile isDigit))
  else if s.head? = some 43 then (false, value (s.tail.takeWhile isDigit))
  else (false, value (s.takeWhile isDigit))

/-- `strtol(s, nullptr, 10)` -/
def strtol (s : List UInt8) : Int :=
  let (minus, number) := scan s
  if minus then max (-number) (-2 ^ 63) else min number (2 ^ 63 - 1)

/-- `strtoul(s, nullptr, 10)` -/
def strtoul (s : List UInt8) : Nat :=
  let (minus, number) := scan s
  if 2 ^ 64 ≤ number then 2 ^ 64 - 1 else if minus then (2 ^ 64 - number) % 2 ^ 64 else number

/-- Conversion of a long to an int. -/
def toInt (number : Int) : Int := (number + 2 ^ 31) % 2 ^ 32 - 2 ^ 31

def atoi (s : List UInt8) : Int := toInt (strtol s)

theorem isDigit_iff {c : UInt8} : isDigit c = true ↔ 48 ≤ c.toNat ∧ c.toNat ≤ 57 := by
  simp [isDigit]

theorem ne_of_isDigit {c other : UInt8} (digit : isDigit c = true) (no_digit : isDigit other = false) : c ≠ other := by
  intro same
  rw [same, no_digit] at digit
  cases digit

theorem toInt_eq {number : Int} (low : -2 ^ 31 ≤ number) (high : number < 2 ^ 31) : toInt number = number := by
  unfold toInt
  omega

/-! ## Texts of numbers -/

theorem toUInt8_digit {c : Char} (digit : c.isDigit = true) :
    isDigit c.toUInt8 = true ∧ c.toUInt8.toNat = c.toNat := by
  have bounds : 48 ≤ c.toNat ∧ c.toNat ≤ 57 := by
    simp only [Char.isDigit, Bool.and_eq_true, decide_eq_true_eq, ge_iff_le, UInt32.le_iff_toNat_le] at digit
    exact digit
  have small : c.toUInt8.toNat = c.toNat := by
    change c.toNat % 256 = c.toNat
    omega
  exact ⟨isDigit_iff.mpr (small.symm ▸ bounds), small⟩

theorem isDigit_text {number : Nat} {c : UInt8} (member : c ∈ text number) : isDigit c = true := by
  obtain ⟨char, present, rfl⟩ := List.mem_map.mp member
  exact (toUInt8_digit (Nat.isDigit_of_mem_toDigits (by decide) (by decide) present)).1

theorem text_ne_nil (number : Nat) : text number ≠ [] := by
  rw [text, ne_eq, List.map_eq_nil_iff]
  exact Nat.toDigits_ne_nil

theorem text_cons (number : Nat) : ∃ c rest, text number = c :: rest ∧ isDigit c = true := by
  obtain ⟨c, rest, split⟩ := List.exists_cons_of_ne_nil (text_ne_nil number)
  exact ⟨c, rest, split, isDigit_text (by rw [split]; exact List.mem_cons_self)⟩

theorem isDigit_first (number : Nat) : isDigit ((text number).getD 0 0) = true := by
  obtain ⟨c, rest, split, digit⟩ := text_cons number
  rw [split]
  exact digit

theorem not_mem_text {c : UInt8} (no_digit : isDigit c = false) (number : Nat) : c ∉ text number :=
  fun member => ne_of_isDigit (isDigit_text member) no_digit rfl

theorem text_length_le {number count : Nat} (some_digit : 0 < count) :
    (text number).length ≤ count ↔ number < 10 ^ count := by
  rw [text, List.length_map]
  exact Nat.length_toDigits_le_iff (by decide) some_digit

theorem value_text (number : Nat) : value (text number) = number := by
  have digits : ∀ chars : List Char, (∀ c ∈ chars, c.isDigit = true) → ∀ start,
      (chars.map Char.toUInt8).foldl (fun number c => 10 * number + (c.toNat - 48)) start =
        Nat.ofDigitChars 10 chars start := by
    intro chars all
    induction chars with
    | nil => simp
    | cons c chars ih =>
      intro start
      obtain ⟨first, rest⟩ := List.forall_mem_cons.mp all
      rw [List.map_cons, List.foldl_cons, ih rest, (toUInt8_digit first).2, Nat.ofDigitChars_cons]
      rfl
  have all : ∀ c ∈ Nat.toDigits 10 number, c.isDigit = true :=
    fun c member => Nat.isDigit_of_mem_toDigits (by decide) (by decide) member
  rw [value, text, digits _ all 0, Nat.ofDigitChars_ten_toDigits]

theorem text_injective : Function.Injective text := by
  intro first second same
  rw [← value_text first, same, value_text]

/-! ## Reading -/

/-- Where a character stands that is neither a blank nor a sign, the number starts. -/
theorem scan_cons {c : UInt8} (rest : List UInt8) (blank : isSpace c = false) (minus : c ≠ 45) (plus : c ≠ 43) :
    scan (c :: rest) = (false, value ((c :: rest).takeWhile isDigit)) := by
  simp [scan, blank, minus, plus]

theorem scan_text (number : Nat) : scan (text number) = (false, number) := by
  obtain ⟨c, rest, split, digit⟩ := text_cons number
  have bounds := isDigit_iff.mp digit
  have blank : isSpace c = false := by
    simp only [isSpace, Bool.or_eq_false_iff, Bool.and_eq_false_iff, decide_eq_false_iff_not]
    omega
  have minus : c ≠ 45 := ne_of_isDigit digit rfl
  have plus : c ≠ 43 := ne_of_isDigit digit rfl
  have whole : (text number).takeWhile isDigit = text number := List.takeWhile_eq_self_iff.mpr fun _ => isDigit_text
  rw [split, scan_cons rest blank minus plus, ← split, whole, value_text]

theorem atoi_text {number : Nat} (small : number < 2 ^ 31) : atoi (text number) = number := by
  have long : min (number : Int) (2 ^ 63 - 1) = number := min_eq_left (by omega)
  simp only [atoi, strtol, scan_text, Bool.false_eq_true, if_false, long]
  exact toInt_eq (by omega) (by omega)

theorem strtoul_text {number : Nat} (small : number < 2 ^ 64) : strtoul (text number) = number := by
  simp only [strtoul, scan_text, Bool.false_eq_true, if_false, if_neg (Nat.not_le.mpr small)]

end Decimal
