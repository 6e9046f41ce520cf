import BoostProcess.Library.Digits
import Mathlib.Data.BitVec
import Mathlib.Data.List.TakeWhile
import Mathlib.Data.UInt

/-! The error pipe of the executor: two functions that write an error, one that reads it.

An error is two ints and a message. Both processes run the same image, so an int has the
same bytes on either side. A message is what its bytes are, also behind a NUL.
-/

set_option autoImplicit false

namespace BoostProcess.V1.Posix

/-- An `int` in memory. -/
def intBytes (value : BitVec 32) : List UInt8 :=
  ((Digits.expand 256 value.toNat 4).map UInt8.ofNat).reverse

def bytesInt (bytes : List UInt8) : BitVec 32 :=
  BitVec.ofNat 32 (Digits.value 256 0 (bytes.reverse.map UInt8.toNat))

/-- What `strlen` and `std::string(const char *)` see of the bytes at a pointer. -/
def cString (bytes : List UInt8) : List UInt8 := bytes.takeWhile (· ≠ 0)

/-- `set_error` in the child, and what `write_error(ec, msg)` puts into the pipe. -/
def writeError (code : BitVec 32) (msg : List UInt8) : List UInt8 :=
  let len := BitVec.ofNat 32 (cString msg).length
  intBytes code ++ intBytes (len + 1#32) ++
    -- write refuses a count that is negative as ssize_t
    if len.toInt < 0 then [] else (cString msg).take len.toNat

/-- `_write_error(sink)` with `_ec` and `_msg` -/
def writeExecError (code : BitVec 32) (msg : List UInt8) : List UInt8 :=
  intBytes code ++ intBytes (BitVec.ofNat 32 msg.length) ++ msg

inductive Sender where
  /-- `write_error` -/
  | setError
  /-- `_write_error` -/
  | failedExec
  deriving DecidableEq, Repr

def Sender.write : Sender → BitVec 32 → List UInt8 → List UInt8
  | setError => writeError
  | failedExec => writeExecError

inductive ReadError where
  /-- At end of file the child has replaced its image. -/
  | none
  /-- `std::string(data[1], ' ')` with a negative size throws. -/
  | lengthError
  /-- The call of `set_error`. -/
  | setError (code : BitVec 32) (msg : List UInt8)
  deriving DecidableEq

/-- `std::string msg(size, ' ')` after one read into it. -/
def fill (size : Nat) (pipe : List UInt8) : List UInt8 :=
  pipe.take size ++ List.replicate (size - pipe.length) 0x20

/-- `_read_error(source)`: what it reads is in the pipe, and `data` is not initialised. -/
def readError (data pipe : List UInt8) : ReadError :=
  if pipe = [] then .none
  else
    let data := pipe.take 8 ++ data.drop (pipe.take 8).length
    let size := bytesInt ((data.drop 4).take 4)
    if size.toInt < 0 then .lengthError
    else .setError (bytesInt (data.take 4)) (cString (fill size.toNat (pipe.drop 8)))

/-! ## Framing -/

@[simp] theorem intBytes_length (value : BitVec 32) : (intBytes value).length = 4 := by
  simp [intBytes]

theorem bytesInt_intBytes (value : BitVec 32) : bytesInt (intBytes value) = value := by
  have digits : ((Digits.expand 256 value.toNat 4).map UInt8.ofNat).map UInt8.toNat = Digits.expand 256 value.toNat 4 := by
    simp [Digits.expand]
  have small : value.toNat / 256 ^ 4 = 0 := Nat.div_eq_of_lt value.isLt
  have whole := @Digits.value_expand 256 value.toNat 4
  unfold bytesInt intBytes
  rw [small] at whole
  rw [List.reverse_reverse, digits, whole, BitVec.ofNat_toNat, BitVec.setWidth_eq]

theorem readError_header (code size : BitVec 32) (data payload : List UInt8) :
    readError data (intBytes code ++ intBytes size ++ payload) =
      if size.toInt < 0 then .lengthError else .setError code (cString (fill size.toNat payload)) := by
  have header : (intBytes code ++ intBytes size).length = 8 := by simp
  have first : (intBytes code ++ intBytes size ++ payload).take 8 = intBytes code ++ intBytes size :=
    List.take_left' header
  have behind : (intBytes code ++ intBytes size ++ payload).drop 8 = payload := List.drop_left' header
  have filled : intBytes code ++ intBytes size ++ payload ≠ [] := by
    intro empty
    have := congrArg List.length empty
    simp at this
  unfold readError
  dsimp only
  rw [if_neg filled, first, behind, List.append_assoc, List.take_left' (intBytes_length code),
    List.drop_left' (intBytes_length code), List.take_left' (intBytes_length size), bytesInt_intBytes, bytesInt_intBytes]

theorem fill_length (size : Nat) (pipe : List UInt8) : (fill size pipe).length = size := by
  simp only [fill, List.length_append, List.length_take, List.length_replicate]
  omega

theorem fill_append (front rest : List UInt8) : fill front.length (front ++ rest) = front := by
  simp [fill]

theorem fill_append_succ (front rest : List UInt8) :
    fill (front.length + 1) (front ++ rest) = front ++ [rest.head?.getD 0x20] := by
  cases rest with
  | nil => simp [fill, List.take_of_length_le]
  | cons byte rest => simp [fill, List.take_append]

theorem cString_length_le (bytes : List UInt8) : (cString bytes).length ≤ bytes.length :=
  (List.takeWhile_prefix _).length_le

theorem cString_free (bytes : List UInt8) : 0 ∉ cString bytes := by
  intro member
  simpa using List.mem_takeWhile_imp member

theorem cString_eq_self {bytes : List UInt8} : cString bytes = bytes ↔ 0 ∉ bytes := by
  constructor
  · intro same
    rw [← same]
    exact cString_free bytes
  · intro free
    unfold cString
    rw [List.takeWhile_eq_self_iff]
    intro byte member
    simp only [ne_eq, decide_eq_true_eq]
    rintro rfl
    exact free member

theorem cString_snoc {bytes : List UInt8} (free : 0 ∉ bytes) (byte : UInt8) :
    cString (bytes ++ [byte]) = if byte = 0 then bytes else bytes ++ [byte] := by
  have plain : bytes.takeWhile (· ≠ 0) = bytes := cString_eq_self.mpr free
  unfold cString
  rw [List.takeWhile_append, plain]
  by_cases stop : byte = 0 <;> simp [stop]

theorem toInt_neg_iff (value : BitVec 32) : value.toInt < 0 ↔ 2 ^ 31 ≤ value.toNat := by
  rw [BitVec.toInt_neg_iff]
  omega

/-- A message that is read has no NUL and fits the size of the header. -/
theorem reported_bounds {code size : BitVec 32} {data payload msg : List UInt8}
    (reported : readError data (intBytes code ++ intBytes size ++ payload) = .setError code msg) :
    0 ∉ msg ∧ msg.length ≤ size.toNat ∧ size.toNat < 2 ^ 31 := by
  rw [readError_header] at reported
  split at reported
  · cases reported
  · rename_i positive
    rw [toInt_neg_iff] at positive
    cases reported
    refine ⟨cString_free _, ?_, by omega⟩
    have short := cString_length_le (fill size.toNat payload)
    rwa [fill_length] at short

theorem writeExecError_exact_iff (code : BitVec 32) (msg data rest : List UInt8) :
    readError data (writeExecError code msg ++ rest) = .setError code msg ↔ 0 ∉ msg ∧ msg.length < 2 ^ 31 := by
  unfold writeExecError
  rw [List.append_assoc]
  constructor
  · intro reported
    obtain ⟨free, short, small⟩ := reported_bounds reported
    exact ⟨free, by omega⟩
  · rintro ⟨free, short⟩
    have size : (BitVec.ofNat 32 msg.length).toNat = msg.length := by
      rw [BitVec.toNat_ofNat]
      omega
    rw [readError_header, if_neg (by rw [toInt_neg_iff]; omega), size, fill_append, cString_eq_self.mpr free]

/-- The reader waits for one byte more than `write_error` writes. -/
theorem readError_writeError {code : BitVec 32} {msg data rest : List UInt8} (short : (cString msg).length + 1 < 2 ^ 31) :
    readError data (writeError code msg ++ rest) =
      .setError code (if rest.head? = some 0 then cString msg else cString msg ++ [rest.head?.getD 0x20]) := by
  have len : (BitVec.ofNat 32 (cString msg).length).toNat = (cString msg).length := by
    rw [BitVec.toNat_ofNat]
    omega
  have size : (BitVec.ofNat 32 (cString msg).length + 1#32).toNat = (cString msg).length + 1 := by
    rw [BitVec.toNat_add, len, BitVec.toNat_ofNat]
    omega
  have stop : rest.head?.getD 0x20 = 0 ↔ rest.head? = some 0 := by
    cases rest with
    | nil => simp
    | cons byte rest => simp
  unfold writeError
  rw [List.append_assoc, readError_header, if_neg (by rw [toInt_neg_iff]; omega),
    if_neg (by rw [toInt_neg_iff]; omega), len, size, List.take_length, fill_append_succ,
    cString_snoc (cString_free msg)]
  simp only [stop]

theorem writeError_exact_iff (code : BitVec 32) (msg data rest : List UInt8) :
    readError data (writeError code msg ++ rest) = .setError code msg ↔
      0 ∉ msg ∧ msg.length + 1 < 2 ^ 31 ∧ rest.head? = some 0 := by
  constructor
  · intro reported
    have bounds := reported
    unfold writeError at bounds
    rw [List.append_assoc] at bounds
    obtain ⟨free, short, small⟩ := reported_bounds bounds
    have plain := cString_eq_self.mpr free
    -- the size of the header, which has wrapped for the lengths that do not fit
    rw [plain, BitVec.toNat_add, BitVec.toNat_ofNat, BitVec.toNat_ofNat] at short small
    have fits : msg.length + 1 < 2 ^ 31 := by omega
    rw [readError_writeError (by rw [plain]; exact fits), plain] at reported
    split at reported
    · rename_i stop
      exact ⟨free, fits, stop⟩
    · simp at reported
  · rintro ⟨free, short, stop⟩
    have plain := cString_eq_self.mpr free
    rw [readError_writeError (by rw [plain]; exact short), if_pos stop, plain]

/-- The parent ends with exactly the error and the message that were sent, whatever the pipe
holds behind them, exactly when they come from `_write_error` and the message is a C string
whose length is an int. Behind a message of `write_error` the parent reads one byte more: it
gets the message only if that byte is there and is 0. -/
theorem readError_exact_iff (sender : Sender) (code : BitVec 32) (msg data rest : List UInt8) :
    readError data (sender.write code msg ++ rest) = .setError code msg ↔
      0 ∉ msg ∧ msg.length < 2 ^ 31 ∧
        (sender = .failedExec ∨ msg.length + 1 < 2 ^ 31 ∧ rest.head? = some 0) := by
  cases sender with
  | failedExec => simpa [Sender.write] using writeExecError_exact_iff code msg data rest
  | setError =>
    refine (writeError_exact_iff code msg data rest).trans ?_
    simp only [reduceCtorEq, false_or]
    constructor
    · rintro ⟨free, short, stop⟩
      exact ⟨free, by omega, short, stop⟩
    · rintro ⟨free, -, short, stop⟩
      exact ⟨free, short, stop⟩

/-- A dup2 that failed with EBADF in the child, read by the parent. -/
theorem readError_dup2_failed :
    let msg := "dup2() failed".toList.map fun c => UInt8.ofNat c.toNat
    readError [] (Sender.setError.write 9 msg) = .setError 9 (msg ++ [0x20]) ∧
      readError [] (Sender.setError.write 9 msg) ≠ .setError 9 msg := by
  decide +kernel

end BoostProcess.V1.Posix
