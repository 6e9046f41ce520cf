import BoostProcess.V1.PipeBuf.Input
import BoostProcess.V1.PipeBuf.PutArea

/-! basic_pipebuf for any character type, over a basic_pipe that counts bytes.

The system calls are asked for `count * sizeof(CharT)` bytes and answer in bytes. The pipe passes
that number on, and the streambuf moves its pointers by it. The pointer of the put area may
fall below its base, so it is an integer here; behind such a state nothing is promised. On
characters of one byte the calls do what those of the basic_pipebuf for char do.
-/

set_option autoImplicit false

namespace BoostProcess.V1.Wide

open Posix (BasicPipe)
open Cells Transition

variable {CharT : Type}

/-- What `basic_pipe::read` and `basic_pipe::write` return for `count` characters, when the system
call returns `len`. -/
def transferred (size count len : Nat) : Option Nat := if len ≤ count * size then some len else none

structure PipeBuf (CharT : Type) where
  pipe : BasicPipe
  /-- `_write` -/
  write : List CharT
  pbase : Nat
  pptr : Int
  epptr : Nat
  /-- `_read` -/
  read : List CharT
  eback : Nat
  gptr : Nat
  egptr : Nat

namespace PipeBuf

def ofPipe [Inhabited CharT] (pipe : BasicPipe) : PipeBuf CharT where
  pipe := pipe
  write := List.replicate defaultBufferSize default
  pbase := 0
  pptr := 0
  epptr := defaultBufferSize
  read := List.replicate defaultBufferSize default
  eback := 0
  gptr := 128
  egptr := 128

def pending (buf : PipeBuf CharT) : List CharT := window buf.write buf.pbase buf.pptr.toNat

def unread (buf : PipeBuf CharT) : List CharT := window buf.read buf.gptr buf.egptr

/-- `*pptr() = ch; pbump(1);` -/
def put (buf : PipeBuf CharT) (c : CharT) : PipeBuf CharT :=
  { buf with write := buf.write.set buf.pptr.toNat c, pptr := buf.pptr + 1 }

/-- `_write_impl()` when write(2) takes some characters, and what it takes. -/
def writeImpl (size : Nat) (buf : PipeBuf CharT) (taken : Nat) : Option (Bool × PipeBuf CharT × List CharT) :=
  if buf.pipe.isOpen = false then some (false, buf, [])
  else if buf.pbase = buf.pptr then some (true, buf, [])
  else
    let diff := buf.pptr - buf.pbase
    (transferred size diff.toNat (taken * size)).map fun (wrt : Nat) =>
      let handed := window buf.write buf.pbase (buf.pbase + taken)
      if wrt < diff then
        let moved := moveDown buf.write (buf.pbase + wrt) buf.pbase (diff - wrt).toNat
        (true, { buf with write := moved, pptr := buf.pptr - wrt }, handed)
      else if wrt = 0 then (false, buf, handed)
      else (true, { buf with pptr := buf.pptr - wrt }, handed)

/-- `overflow(ch)` for a character, and whether it returns that. -/
def overflow (size : Nat) (buf : PipeBuf CharT) (c : CharT) (taken : Nat) : Option (Bool × PipeBuf CharT × List CharT) :=
  if buf.pipe.isOpen = true then
    if buf.pptr = buf.epptr then
      (buf.writeImpl size taken).map fun (wr, buf, handed) => if wr then (true, buf.put c, handed) else (false, buf, handed)
    else (buf.put c).writeImpl size taken
  else some (false, buf, [])

/-- The offset of `&_read.back()`. -/
def back (buf : PipeBuf CharT) : Nat := buf.read.length - 1

def rewind (buf : PipeBuf CharT) : PipeBuf CharT :=
  if buf.egptr = buf.back then { buf with eback := 0, gptr := 10, egptr := 10 } else buf

/-- `underflow()` when read(2) delivers some characters. -/
def underflow (size : Nat) (buf : PipeBuf CharT) (chars : List CharT) : Option (PipeBuf CharT) :=
  if buf.pipe.isOpen = false then some buf
  else
    let buf := buf.rewind
    (transferred size (buf.back - buf.egptr) (chars.length * size)).map fun (res : Nat) =>
      let buf := { buf with read := storeAll buf.read buf.egptr chars }
      if res = 0 then buf else { buf with egptr := buf.egptr + res }

/-! ## Characters of one byte -/

def ofBytes (buf : V1.PipeBuf) : PipeBuf UInt8 :=
  ⟨buf.pipe, buf.write, buf.pbase, buf.pptr, buf.epptr, buf.read, buf.eback, buf.gptr, buf.egptr⟩

theorem transferred_one (count len : Nat) : transferred 1 count (len * 1) = if len ≤ count then some len else none := by
  rw [transferred, Nat.mul_one, Nat.mul_one]

theorem ofBytes_writeImpl {buf : V1.PipeBuf} (lower : buf.pbase ≤ buf.pptr) (wrt : Nat) :
    (ofBytes buf).writeImpl 1 wrt = (buf.writeOnce (some wrt)).bind fun effect =>
      effect.result.map fun wr => (wr, ofBytes effect.buf, effect.handed) := by
  unfold writeImpl V1.PipeBuf.writeOnce
  by_cases closed : buf.pipe.isOpen = false
  · rw [if_pos (show (ofBytes buf).pipe.isOpen = false from closed), if_pos closed]
    rfl
  rw [if_neg (show ¬(ofBytes buf).pipe.isOpen = false from closed), if_neg closed]
  by_cases idle : buf.pbase = buf.pptr
  · rw [if_pos (show ((ofBytes buf).pbase : Int) = (ofBytes buf).pptr from congrArg Nat.cast idle), if_pos idle]
    rfl
  have pending : ¬((ofBytes buf).pbase : Int) = (ofBytes buf).pptr := fun same => idle (Int.ofNat.inj same)
  have diff : (ofBytes buf).pptr - (ofBytes buf).pbase = ((buf.pptr - buf.pbase : Nat) : Int) := (Int.ofNat_sub lower).symm
  rw [if_neg pending, if_neg idle]
  simp only [diff, Int.toNat_natCast, transferred_one]
  by_cases most : wrt ≤ buf.pptr - buf.pbase
  · have back : (ofBytes buf).pptr - wrt = ((buf.pptr - wrt : Nat) : Int) := (Int.ofNat_sub (by omega)).symm
    have rest : ((buf.pptr - buf.pbase : Nat) : Int) - wrt = ((buf.pptr - buf.pbase - wrt : Nat) : Int) :=
      (Int.ofNat_sub most).symm
    simp only [if_pos most, if_neg (Nat.not_lt.mpr most), Option.map_some, Int.ofNat_lt, back, rest, Int.toNat_natCast]
    split
    · rfl
    · split <;> rfl
  · simp only [if_neg most, if_pos (Nat.not_le.mp most), Option.map_none, Option.bind_none]

/-- What underflow reads for characters of one byte. -/
theorem ofBytes_underflow {input : Input} {res : Nat} (isOpen : input.buf.pipe.isOpen = true)
    (fits : res ≤ input.buf.rewind.back - input.buf.rewind.egptr) (available : res ≤ input.incoming.length) :
    (ofBytes input.buf).underflow 1 (input.incoming.take res) = some (ofBytes (input.fetched res).buf) := by
  have rewound : (ofBytes input.buf).rewind = ofBytes input.buf.rewind := by
    unfold rewind V1.PipeBuf.rewind
    by_cases full : input.buf.egptr = input.buf.back
    · rw [if_pos (show (ofBytes input.buf).egptr = (ofBytes input.buf).back from full), if_pos full]
      rfl
    · rw [if_neg (show ¬(ofBytes input.buf).egptr = (ofBytes input.buf).back from full), if_neg full]
  have taken : (input.incoming.take res).length = res := by
    rw [List.length_take]
    omega
  unfold underflow
  rw [if_neg (show ¬(ofBytes input.buf).pipe.isOpen = false by simp [ofBytes, isOpen])]
  simp only [rewound, transferred_one, taken]
  rw [if_pos (show res ≤ (ofBytes input.buf.rewind).back - (ofBytes input.buf.rewind).egptr from fits), Option.map_some]
  by_cases nothing : res = 0
  · subst nothing
    rfl
  · simp only [if_neg nothing]
    rfl

structure PutExact (buf : PipeBuf CharT) (sent accepted : List CharT) : Prop where
  lower : buf.pbase ≤ buf.pptr
  upper : buf.pptr ≤ buf.epptr
  total : sent ++ buf.pending = accepted

structure GetExact (buf : PipeBuf CharT) (delivered received : List CharT) : Prop where
  lower : buf.gptr ≤ buf.egptr
  upper : buf.egptr ≤ buf.read.length
  total : delivered ++ buf.unread = received

end PipeBuf

/-- The calls, with what the system calls move during them. A `put` is sputc with room for the
character, a `bump` is sbumpc with one to deliver; without, those call overflow and underflow. -/
inductive Call (CharT : Type) where
  | put (c : CharT)
  | overflow (c : CharT) (taken : Nat)
  | sync (taken : Nat)
  | underflow (chars : List CharT)
  | bump

/-- A pipebuf, the characters that calls have accepted and the pipe has got, and those that
the pipe has delivered and calls have returned. -/
structure Traffic (CharT : Type) where
  buf : PipeBuf CharT
  accepted : List CharT
  sent : List CharT
  received : List CharT
  delivered : List CharT

namespace Traffic

def start [Inhabited CharT] (pipe : BasicPipe) : Traffic CharT := ⟨PipeBuf.ofPipe pipe, [], [], [], []⟩

/-- One call on characters of `size` bytes. -/
def step (size : Nat) (traffic : Traffic CharT) : Call CharT → Option (Traffic CharT)
  | .put c =>
    if traffic.buf.pptr < traffic.buf.epptr then
      some { traffic with buf := traffic.buf.put c, accepted := traffic.accepted ++ [c] }
    else none
  | .overflow c taken =>
    (traffic.buf.overflow size c taken).map fun (wr, buf, handed) =>
      { traffic with
        buf := buf
        accepted := if wr then traffic.accepted ++ [c] else traffic.accepted
        sent := traffic.sent ++ handed }
  | .sync taken =>
    (traffic.buf.writeImpl size taken).map fun (_, buf, handed) =>
      { traffic with buf := buf, sent := traffic.sent ++ handed }
  | .underflow chars =>
    if traffic.buf.gptr < traffic.buf.egptr then none
    else if traffic.buf.pipe.isOpen = false then some traffic
    else (traffic.buf.underflow size chars).map fun buf =>
      { traffic with buf := buf, received := traffic.received ++ chars }
  | .bump =>
    if traffic.buf.gptr < traffic.buf.egptr then
      (traffic.buf.read[traffic.buf.gptr]?).map fun c =>
        { traffic with
          buf := { traffic.buf with gptr := traffic.buf.gptr + 1 }
          delivered := traffic.delivered ++ [c] }
    else none

/-- The pointers stay inside of their buffers, and the characters that are sent and delivered
are the ones that were accepted and received. -/
structure Exact (traffic : Traffic CharT) : Prop where
  put : traffic.buf.PutExact traffic.sent traffic.accepted
  get : traffic.buf.GetExact traffic.delivered traffic.received

/-- What the constructor has set up. -/
structure SetUp (traffic : Traffic CharT) : Prop where
  size : traffic.buf.epptr = traffic.buf.write.length
  room : traffic.buf.pbase < traffic.buf.epptr
  get : 10 < traffic.buf.read.length

/-- Bytes are characters in this call: the type has one byte, or none are moved. And a character
that comes while the put area is full finds a pipe that takes some. -/
def Careful (size : Nat) (traffic : Traffic CharT) : Call CharT → Prop
  | .put _ => True
  | .overflow _ taken => traffic.buf.pipe.isOpen = true →
      (size = 1 ∨ taken = 0) ∧ ¬(traffic.buf.pptr = traffic.buf.epptr ∧ taken = 0)
  | .sync taken => traffic.buf.pipe.isOpen = true → traffic.buf.pbase ≠ traffic.buf.pptr → size = 1 ∨ taken = 0
  | .underflow chars => traffic.buf.pipe.isOpen = true → size = 1 ∨ chars = []
  | .bump => True

end Traffic

theorem bytes_eq_iff {size chars : Nat} : chars * size = chars ↔ size = 1 ∨ chars = 0 := by
  constructor
  · intro same
    rcases Nat.eq_zero_or_pos chars with none_moved | some_moved
    · exact .inr none_moved
    · exact .inl (Nat.eq_of_mul_eq_mul_left some_moved (same.trans (Nat.mul_one chars).symm))
  · rintro (rfl | rfl)
    · exact Nat.mul_one chars
    · exact Nat.zero_mul size

namespace PipeBuf

/-- The put area of a pipebuf that has been set up, with its pointer as a number. -/
structure PutArea (buf : PipeBuf CharT) (pptr : Nat) : Prop where
  pointer : buf.pptr = pptr
  lower : buf.pbase ≤ pptr
  upper : pptr ≤ buf.epptr
  size : buf.epptr = buf.write.length
  room : buf.pbase < buf.epptr

theorem pending_length {buf : PipeBuf CharT} {pptr : Nat} (area : buf.PutArea pptr) :
    buf.pending.length = pptr - buf.pbase := by
  have inside : pptr ≤ buf.write.length := area.size ▸ area.upper
  rw [pending, area.pointer, Int.toNat_natCast, window_length inside]

theorem put_spec {buf : PipeBuf CharT} {pptr : Nat} (area : buf.PutArea pptr) (c : CharT) (free : pptr < buf.epptr) :
    (buf.put c).PutArea (pptr + 1) ∧ (buf.put c).pending = buf.pending ++ [c] := by
  have inside : pptr < buf.write.length := area.size ▸ free
  have next : (buf.put c).pptr = (pptr + 1 : Nat) := by
    rw [put, area.pointer]
    rfl
  refine ⟨⟨next, Nat.le_succ_of_le area.lower, free, area.size.trans List.length_set.symm, area.room⟩, ?_⟩
  rw [pending, next, pending, area.pointer, put, area.pointer]
  exact window_snoc area.lower inside

/-- The buffer after a write of which `taken` characters were taken. -/
def moved (size : Nat) (buf : PipeBuf CharT) (pptr taken : Nat) : PipeBuf CharT :=
  { buf with
    write := moveDown buf.write (buf.pbase + taken * size) buf.pbase (pptr - buf.pbase - taken * size)
    pptr := (pptr : Int) - (taken * size : Nat) }

/-- What `_write_impl` can do to a put area in order: nothing, or move its pointer by the bytes
that were taken. -/
theorem writeImpl_cases {size : Nat} {buf next : PipeBuf CharT} {pptr taken : Nat} {wr : Bool} {handed : List CharT}
    (area : buf.PutArea pptr) (returned : buf.writeImpl size taken = some (wr, next, handed)) :
    (next = buf ∧ handed = [] ∧ wr = buf.pipe.isOpen ∧ (buf.pipe.isOpen = false ∨ buf.pbase = pptr)) ∨
      (buf.pipe.isOpen = true ∧ buf.pbase < pptr ∧ taken * size ≤ (pptr - buf.pbase) * size ∧ wr = true ∧
        handed = window buf.write buf.pbase (buf.pbase + taken) ∧
        next = buf.moved size pptr taken) := by
  have lower := area.lower
  have pointer := area.pointer
  unfold writeImpl at returned
  split at returned
  · rename_i closed
    cases returned
    exact .inl ⟨rfl, rfl, closed.symm, .inl closed⟩
  · rename_i isOpen
    rw [Bool.not_eq_false] at isOpen
    split at returned
    · rename_i empty
      cases returned
      refine .inl ⟨rfl, rfl, isOpen.symm, .inr ?_⟩
      omega
    · rename_i apart
      obtain ⟨wrt, moved, same⟩ := Option.map_eq_some_iff.mp returned
      have diff : buf.pptr - buf.pbase = (pptr - buf.pbase : Nat) := by omega
      rw [diff, Int.toNat_natCast, transferred] at moved
      split at moved
      · rename_i most
        cases moved
        refine .inr ⟨isOpen, by omega, most, ?_⟩
        rw [diff] at same
        split at same
        · rename_i short
          have tail : ((pptr - buf.pbase : Nat) - (taken * size : Nat) : Int).toNat = pptr - buf.pbase - taken * size := by
            omega
          rw [tail, pointer] at same
          cases same
          exact ⟨rfl, rfl, rfl⟩
        · rename_i whole
          have none_left : pptr - buf.pbase - taken * size = 0 := by omega
          rw [if_neg (show ¬taken * size = 0 by omega), pointer] at same
          cases same
          rw [moved, none_left]
          exact ⟨rfl, rfl, rfl⟩
      · cases moved

/-- Where bytes are characters, the rest of the put area is moved to its base. -/
theorem moved_spec {size : Nat} {buf : PipeBuf CharT} {pptr taken : Nat} (area : buf.PutArea pptr)
    (fits : taken ≤ pptr - buf.pbase) (same : taken * size = taken) :
    (buf.moved size pptr taken).PutArea (pptr - taken) ∧
      window buf.write buf.pbase (buf.pbase + taken) ++ (buf.moved size pptr taken).pending = buf.pending := by
  obtain ⟨pointer, lower, upper, length, room⟩ := area
  have tail := window_moveDown (show buf.pbase ≤ buf.pbase + taken by omega)
    (show buf.pbase + taken + (pptr - buf.pbase - taken) ≤ buf.write.length by omega)
  rw [show buf.pbase + (pptr - buf.pbase - taken) = pptr - taken by omega,
    show buf.pbase + taken + (pptr - buf.pbase - taken) = pptr by omega] at tail
  have next : ((pptr : Int) - (taken : Nat)) = (pptr - taken : Nat) := by omega
  rw [moved, same]
  refine ⟨⟨next, ?_, ?_, length.trans (moveDown_length _ _ _ _).symm, room⟩, ?_⟩
  · exact (by omega : buf.pbase ≤ pptr - taken)
  · exact (by omega : pptr - taken ≤ buf.epptr)
  · simp only [pending, next, pointer, Int.toNat_natCast]
    rw [tail, window_append (by omega) (by omega)]

/-- The lengths on the output side, as long as it is exact. -/
theorem PutExact.balance {buf : PipeBuf CharT} {sent accepted : List CharT} (exact : buf.PutExact sent accepted)
    (size : buf.epptr = buf.write.length) :
    (sent.length : Int) + (buf.pptr - buf.pbase) = accepted.length := by
  have lower := exact.lower
  have upper := exact.upper
  have lengths := congrArg List.length exact.total
  rw [List.length_append, pending, window_length (by omega)] at lengths
  omega

theorem PutExact.area {buf : PipeBuf CharT} {sent accepted : List CharT} (exact : buf.PutExact sent accepted)
    (size : buf.epptr = buf.write.length) (room : buf.pbase < buf.epptr) : buf.PutArea buf.pptr.toNat := by
  have lower := exact.lower
  have upper := exact.upper
  exact ⟨by omega, by omega, by omega, size, room⟩

theorem PutArea.exact {buf : PipeBuf CharT} {pptr : Nat} {sent accepted : List CharT} (area : buf.PutArea pptr)
    (total : sent ++ buf.pending = accepted) : buf.PutExact sent accepted := by
  have pointer := area.pointer
  have lower := area.lower
  have upper := area.upper
  exact ⟨by omega, by omega, total⟩

/-- A write keeps the output side exact if and only if its bytes are as many as its characters. -/
theorem moved_exact_iff {size : Nat} {buf : PipeBuf CharT} {pptr taken : Nat} {sent accepted : List CharT}
    (area : buf.PutArea pptr) (fits : taken ≤ pptr - buf.pbase) (total : sent ++ buf.pending = accepted) :
    (buf.moved size pptr taken).PutExact (sent ++ window buf.write buf.pbase (buf.pbase + taken)) accepted ↔
      taken * size = taken := by
  have inside : pptr ≤ buf.write.length := area.size ▸ area.upper
  have lower := area.lower
  constructor
  · intro exact
    have after := exact.balance (area.size.trans (moveDown_length _ _ _ _).symm)
    have before := (area.exact total).balance area.size
    rw [List.length_append, window_length (by omega)] at after
    simp only [moved] at after
    rw [area.pointer] at before
    push_cast at after
    omega
  · intro same
    obtain ⟨next, conserved⟩ := moved_spec area fits same
    apply next.exact
    rw [List.append_assoc, conserved, total]

/-- A character goes behind what a write has left in a full put area: that is exact if and only
if bytes are characters and the pipe has taken some. -/
theorem put_moved_exact_iff {size : Nat} {buf : PipeBuf CharT} {pptr taken : Nat} {sent accepted : List CharT} (c : CharT)
    (area : buf.PutArea pptr) (full : pptr = buf.epptr) (fits : taken ≤ pptr - buf.pbase)
    (total : sent ++ buf.pending = accepted) :
    ((buf.moved size pptr taken).put c).PutExact (sent ++ window buf.write buf.pbase (buf.pbase + taken)) (accepted ++ [c]) ↔
      taken * size = taken ∧ taken ≠ 0 := by
  have inside : pptr ≤ buf.write.length := area.size ▸ area.upper
  have lower := area.lower
  constructor
  · intro exact
    have upper := exact.upper
    have after := exact.balance ((area.size.trans (moveDown_length _ _ _ _).symm).trans List.length_set.symm)
    have before := (area.exact total).balance area.size
    rw [List.length_append, List.length_append, window_length (by omega)] at after
    simp only [moved, put, List.length_singleton] at after upper
    rw [area.pointer] at before
    push_cast at after upper
    have same : (taken * size : Nat) = (taken : Int) := by
      push_cast
      omega
    constructor
    · exact_mod_cast same
    · rintro rfl
      omega
  · rintro ⟨same, some_taken⟩
    obtain ⟨next, conserved⟩ := moved_spec area fits same
    have free : pptr - taken < (buf.moved size pptr taken).epptr := by
      change pptr - taken < buf.epptr
      omega
    obtain ⟨stored, behind⟩ := put_spec next c free
    apply stored.exact
    rw [behind, List.append_assoc, ← List.append_assoc (window _ _ _), conserved, ← List.append_assoc, total]

/-- A call of the output side leaves what has been set up, and the get area. -/
structure OutputOnly (buf next : PipeBuf CharT) : Prop where
  size : next.epptr = next.write.length
  room : next.pbase < next.epptr
  read : next.read = buf.read
  gptr : next.gptr = buf.gptr
  egptr : next.egptr = buf.egptr

theorem OutputOnly.get {buf next : PipeBuf CharT} {delivered received : List CharT} (only : buf.OutputOnly next)
    (exact : buf.GetExact delivered received) : next.GetExact delivered received := by
  obtain ⟨-, -, read, gptr, egptr⟩ := only
  refine ⟨?_, ?_, ?_⟩
  · rw [gptr, egptr]
    exact exact.lower
  · rw [egptr, read]
    exact exact.upper
  · rw [unread, read, gptr, egptr]
    exact exact.total

theorem writeImpl_exact_iff {size : Nat} {buf next : PipeBuf CharT} {pptr taken : Nat} {wr : Bool}
    {handed sent accepted : List CharT} (positive : 0 < size) (area : buf.PutArea pptr)
    (total : sent ++ buf.pending = accepted) (returned : buf.writeImpl size taken = some (wr, next, handed)) :
    buf.OutputOnly next ∧ wr = buf.pipe.isOpen ∧
      (next.PutExact (sent ++ handed) accepted ↔
        (buf.pipe.isOpen = true → buf.pbase ≠ buf.pptr → size = 1 ∨ taken = 0)) := by
  have pointer := area.pointer
  rcases writeImpl_cases area returned with ⟨rfl, rfl, same, idle⟩ | ⟨isOpen, pending, most, rfl, rfl, rfl⟩
  · refine ⟨⟨area.size, area.room, rfl, rfl, rfl⟩, same, iff_of_true ?_ ?_⟩
    · rw [List.append_nil]
      exact area.exact total
    · intro isOpen apart
      rcases idle with closed | empty
      · rw [isOpen] at closed
        cases closed
      · exact absurd (by omega) apart
  · have fits := Nat.le_of_mul_le_mul_right most positive
    refine ⟨⟨area.size.trans (moveDown_length _ _ _ _).symm, area.room, rfl, rfl, rfl⟩, isOpen.symm, ?_⟩
    rw [moved_exact_iff area fits total, bytes_eq_iff]
    exact ⟨fun bytes _ _ => bytes, fun careful => careful isOpen (by omega)⟩

/-- A full put area is written first, and the character goes behind what that leaves. -/
theorem overflow_full {size : Nat} {buf next : PipeBuf CharT} {pptr taken : Nat} {c : CharT} {wr : Bool}
    {handed : List CharT} (positive : 0 < size) (area : buf.PutArea pptr) (isOpen : buf.pipe.isOpen = true)
    (full : pptr = buf.epptr) (returned : buf.overflow size c taken = some (wr, next, handed)) :
    taken ≤ pptr - buf.pbase ∧ wr = true ∧ next = (buf.moved size pptr taken).put c ∧
      handed = window buf.write buf.pbase (buf.pbase + taken) := by
  have pointer := area.pointer
  have room := area.room
  unfold overflow at returned
  rw [if_pos isOpen, if_pos (by omega)] at returned
  obtain ⟨⟨wrote, left, sent⟩, call, same⟩ := Option.map_eq_some_iff.mp returned
  rcases writeImpl_cases area call with ⟨-, -, -, idle⟩ | ⟨-, pending, most, rfl, rfl, rfl⟩
  · exfalso
    rcases idle with closed | empty
    · rw [isOpen] at closed
      cases closed
    · omega
  · cases same
    exact ⟨Nat.le_of_mul_le_mul_right most positive, rfl, rfl, rfl⟩

theorem overflow_exact_iff {size : Nat} {buf next : PipeBuf CharT} {pptr taken : Nat} {c : CharT} {wr : Bool}
    {handed sent accepted : List CharT} (positive : 0 < size) (area : buf.PutArea pptr)
    (total : sent ++ buf.pending = accepted) (returned : buf.overflow size c taken = some (wr, next, handed)) :
    buf.OutputOnly next ∧
      (next.PutExact (sent ++ handed) (if wr then accepted ++ [c] else accepted) ↔
        (buf.pipe.isOpen = true → (size = 1 ∨ taken = 0) ∧ ¬(buf.pptr = buf.epptr ∧ taken = 0))) := by
  have pointer := area.pointer
  have upper := area.upper
  have lower := area.lower
  by_cases isOpen : buf.pipe.isOpen = true
  · by_cases full : buf.pptr = buf.epptr
    · have last : pptr = buf.epptr := by omega
      obtain ⟨fits, rfl, rfl, rfl⟩ := overflow_full positive area isOpen last returned
      constructor
      · exact ⟨(area.size.trans (moveDown_length _ _ _ _).symm).trans List.length_set.symm, area.room, rfl, rfl, rfl⟩
      · rw [if_pos rfl, put_moved_exact_iff c area last fits total, bytes_eq_iff]
        constructor
        · rintro ⟨bytes, some_taken⟩ _
          exact ⟨bytes, fun stuck => some_taken stuck.2⟩
        · intro careful
          exact ⟨(careful isOpen).1, fun nothing => (careful isOpen).2 ⟨full, nothing⟩⟩
    · rw [overflow, if_pos isOpen, if_neg full] at returned
      obtain ⟨stored, behind⟩ := put_spec area c (by omega)
      have longer : sent ++ (buf.put c).pending = accepted ++ [c] := by
        rw [behind, ← List.append_assoc, total]
      obtain ⟨only, same, exact_iff⟩ := writeImpl_exact_iff positive stored longer returned
      have stays : (buf.put c).pipe = buf.pipe := rfl
      have apart : ((buf.put c).pbase : Int) ≠ (buf.put c).pptr := by
        have := stored.pointer
        have : (buf.put c).pbase = buf.pbase := rfl
        omega
      rw [stays] at same exact_iff
      rw [same, if_pos isOpen, exact_iff]
      refine ⟨⟨only.size, only.room, only.read, only.gptr, only.egptr⟩, ?_⟩
      constructor
      · intro careful _
        exact ⟨careful isOpen apart, fun stuck => full stuck.1⟩
      · intro careful _ _
        exact (careful isOpen).1
  · rw [overflow, if_neg isOpen] at returned
    cases returned
    refine ⟨⟨area.size, area.room, rfl, rfl, rfl⟩, iff_of_true ?_ fun opened => absurd opened isOpen⟩
    rw [List.append_nil, if_neg Bool.false_ne_true]
    exact area.exact total

/-- A call of the input side leaves the put area, and the size of the other buffer. -/
structure InputOnly (buf next : PipeBuf CharT) : Prop where
  write : next.write = buf.write
  pbase : next.pbase = buf.pbase
  pptr : next.pptr = buf.pptr
  epptr : next.epptr = buf.epptr
  length : next.read.length = buf.read.length

theorem InputOnly.put {buf next : PipeBuf CharT} {sent accepted : List CharT} (only : buf.InputOnly next)
    (exact : buf.PutExact sent accepted) : next.PutExact sent accepted := by
  obtain ⟨write, pbase, pptr, epptr, -⟩ := only
  refine ⟨?_, ?_, ?_⟩
  · rw [pbase, pptr]
    exact exact.lower
  · rw [pptr, epptr]
    exact exact.upper
  · rw [pending, write, pbase, pptr]
    exact exact.total

/-- Before a read, the get area is at most moved down. -/
theorem rewind_only (buf : PipeBuf CharT) :
    buf.InputOnly buf.rewind ∧ buf.rewind.read = buf.read := by
  unfold rewind
  split <;> exact ⟨⟨rfl, rfl, rfl, rfl, rfl⟩, rfl⟩

theorem underflow_only {size : Nat} {buf next : PipeBuf CharT} {chars : List CharT}
    (returned : buf.underflow size chars = some next) : buf.InputOnly next := by
  obtain ⟨⟨write, pbase, pptr, epptr, length⟩, -⟩ := buf.rewind_only
  unfold underflow at returned
  split at returned
  · cases returned
    exact ⟨rfl, rfl, rfl, rfl, rfl⟩
  · obtain ⟨res, -, rfl⟩ := Option.map_eq_some_iff.mp returned
    split <;> exact ⟨write, pbase, pptr, epptr, by rw [storeAll_length, length]⟩

theorem rewind_exhausted {buf : PipeBuf CharT} (get : 10 < buf.read.length) (same : buf.gptr = buf.egptr)
    (inside : buf.egptr ≤ buf.read.length) :
    buf.rewind.gptr = buf.rewind.egptr ∧ buf.rewind.egptr ≤ buf.read.length := by
  unfold rewind
  split
  · exact ⟨rfl, Nat.le_of_lt get⟩
  · exact ⟨same, inside⟩

/-- On an open pipe, the get area grows by the bytes that were read. -/
theorem underflow_eq {size : Nat} {buf next : PipeBuf CharT} {chars : List CharT} (positive : 0 < size)
    (isOpen : buf.pipe.isOpen = true) (returned : buf.underflow size chars = some next) :
    chars.length ≤ buf.rewind.back - buf.rewind.egptr ∧
      next = { buf.rewind with
        read := storeAll buf.rewind.read buf.rewind.egptr chars
        egptr := buf.rewind.egptr + chars.length * size } := by
  unfold underflow at returned
  rw [if_neg (by simp [isOpen])] at returned
  obtain ⟨res, asked, rfl⟩ := Option.map_eq_some_iff.mp returned
  unfold transferred at asked
  split at asked
  · rename_i most
    cases asked
    constructor
    · exact Nat.le_of_mul_le_mul_right most positive
    · split
      · rename_i nothing
        rw [nothing]
        rfl
      · rfl
  · cases asked

/-- A read keeps the input side exact if and only if its bytes are as many as its characters. -/
theorem underflow_exact_iff {size : Nat} {buf next : PipeBuf CharT} {chars delivered received : List CharT}
    (positive : 0 < size) (get : 10 < buf.read.length) (isOpen : buf.pipe.isOpen = true) (exhausted : buf.egptr ≤ buf.gptr)
    (exact : buf.GetExact delivered received) (returned : buf.underflow size chars = some next) :
    next.GetExact delivered (received ++ chars) ↔ chars.length * size = chars.length := by
  obtain ⟨ordered, inside, total⟩ := exact
  have same : buf.gptr = buf.egptr := Nat.le_antisymm ordered exhausted
  have whole : delivered = received := by
    rw [← total, unread, same, window_self, List.append_nil]
  obtain ⟨empty, bound⟩ := rewind_exhausted get same inside
  obtain ⟨fits, rfl⟩ := underflow_eq positive isOpen returned
  have kept := buf.rewind_only.2
  generalize buf.rewind = start at *
  rw [back, kept] at fits
  have size_kept := congrArg List.length kept
  constructor
  · intro next
    have lengths := congrArg List.length next.total
    simp only [unread, List.length_append, whole] at lengths
    rw [window_length next.upper] at lengths
    have grown_by : start.egptr + chars.length * size - start.gptr = chars.length := Nat.add_left_cancel lengths
    omega
  · intro bytes
    have stored := @window_storeAll CharT start.read start.gptr start.egptr chars (Nat.le_of_eq empty) (by omega)
    constructor
    case lower => exact (by omega : start.gptr ≤ start.egptr + chars.length * size)
    case upper =>
      simp only [storeAll_length, bytes]
      omega
    case total =>
      simp only [unread, bytes]
      rw [stored, empty, window_self, whole, List.nil_append]

end PipeBuf

namespace Traffic

/-- Each call keeps what the constructor has set up, and stays exact if and only if bytes are
characters in it. -/
theorem step_exact_iff {size : Nat} {traffic next : Traffic CharT} {call : Call CharT} (positive : 0 < size)
    (setUp : traffic.SetUp) (exact : traffic.Exact) (performed : step size traffic call = some next) :
    next.SetUp ∧ (next.Exact ↔ traffic.Careful size call) := by
  obtain ⟨length, room, get⟩ := setUp
  obtain ⟨put_exact, get_exact⟩ := exact
  have area := put_exact.area length room
  have total := put_exact.total
  have pointer := area.pointer
  cases call with
  | put c =>
    simp only [step] at performed
    split at performed
    · rename_i free
      cases performed
      obtain ⟨stored, behind⟩ := PipeBuf.put_spec area c (by omega)
      refine ⟨⟨stored.size, stored.room, get⟩, iff_of_true ⟨stored.exact ?_, ?_⟩ trivial⟩
      · rw [behind, ← List.append_assoc, total]
      · exact ⟨get_exact.lower, get_exact.upper, get_exact.total⟩
    · cases performed
  | overflow c taken =>
    obtain ⟨⟨wr, buf, handed⟩, returned, rfl⟩ := Option.map_eq_some_iff.mp performed
    obtain ⟨only, exact_iff⟩ := PipeBuf.overflow_exact_iff positive area total returned
    refine ⟨⟨only.size, only.room, only.read ▸ get⟩, ?_⟩
    exact ⟨fun after => exact_iff.mp after.put, fun careful => ⟨exact_iff.mpr careful, only.get get_exact⟩⟩
  | sync taken =>
    obtain ⟨⟨wr, buf, handed⟩, returned, rfl⟩ := Option.map_eq_some_iff.mp performed
    obtain ⟨only, -, exact_iff⟩ := PipeBuf.writeImpl_exact_iff positive area total returned
    refine ⟨⟨only.size, only.room, only.read ▸ get⟩, ?_⟩
    exact ⟨fun after => exact_iff.mp after.put, fun careful => ⟨exact_iff.mpr careful, only.get get_exact⟩⟩
  | underflow chars =>
    simp only [step] at performed
    split at performed
    · cases performed
    · rename_i exhausted
      split at performed
      · rename_i closed
        cases performed
        refine ⟨⟨length, room, get⟩, iff_of_true ⟨put_exact, get_exact⟩ ?_⟩
        simp [Careful, closed]
      · rename_i isOpen
        rw [Bool.not_eq_false] at isOpen
        obtain ⟨buf, returned, rfl⟩ := Option.map_eq_some_iff.mp performed
        have only := PipeBuf.underflow_only returned
        have exact_iff := PipeBuf.underflow_exact_iff positive get isOpen (Nat.le_of_not_lt exhausted) get_exact returned
        rw [bytes_eq_iff, List.length_eq_zero_iff] at exact_iff
        refine ⟨⟨?_, ?_, only.length ▸ get⟩, ?_⟩
        · rw [only.epptr, only.write]
          exact length
        · rw [only.pbase, only.epptr]
          exact room
        · exact ⟨fun after _ => exact_iff.mp after.get, fun careful => ⟨only.put put_exact, exact_iff.mpr (careful isOpen)⟩⟩
  | bump =>
    simp only [step] at performed
    split at performed
    · rename_i some_left
      obtain ⟨c, current, rfl⟩ := Option.map_eq_some_iff.mp performed
      refine ⟨⟨length, room, get⟩,
        iff_of_true ⟨⟨put_exact.lower, put_exact.upper, total⟩, some_left, get_exact.upper, ?_⟩ trivial⟩
      obtain ⟨first, same, split⟩ := window_cons some_left get_exact.upper
      rw [current, Option.some_inj] at same
      subst same
      rw [← get_exact.total, PipeBuf.unread, PipeBuf.unread, split, List.append_assoc, List.singleton_append]
    · cases performed

theorem read_length_start [Inhabited CharT] (pipe : BasicPipe) :
    (@start CharT _ pipe).buf.read.length = defaultBufferSize := List.length_replicate

theorem setUp_start [Inhabited CharT] (pipe : BasicPipe) : (@start CharT _ pipe).SetUp := by
  refine ⟨List.length_replicate.symm, (by decide : 0 < defaultBufferSize), ?_⟩
  rw [read_length_start]
  decide

theorem exact_start [Inhabited CharT] (pipe : BasicPipe) : (@start CharT _ pipe).Exact := by
  let cells : List CharT := List.replicate defaultBufferSize default
  refine ⟨⟨Int.le_refl 0, Int.natCast_nonneg _, window_self cells 0⟩, Nat.le_refl 128, ?_, window_self cells 128⟩
  rw [read_length_start]
  exact (by decide : 128 ≤ defaultBufferSize)

/-- For characters of `size` bytes the returned counts are numbers of characters if they have one
byte, or nothing is moved. So they are in all calls of a run exactly if the streambuf stays
exact in every state of it, apart from a full put area of which the pipe takes nothing. -/
theorem exact_iff_careful [Inhabited CharT] {size : Nat} (positive : 0 < size) (pipe : BasicPipe) (calls : List (Call CharT))
    (final : Traffic CharT) (reached : run (step size) (start pipe) calls = some final) :
    (∀ count chars, chars ≤ count → (transferred size count (chars * size) = some chars ↔ size = 1 ∨ chars = 0)) ∧
    (Always (step size) Exact (start pipe) calls ↔ Admits (step size) (Careful size) (start pipe) calls) := by
  constructor
  · intro count chars most
    rw [transferred, if_pos (Nat.mul_le_mul_right size most), Option.some_inj, bytes_eq_iff]
  · apply always_iff_admits _ _ (setUp_start pipe) (exact_start pipe) reached
    · exact fun _ _ _ setUp exact performed => (step_exact_iff positive setUp exact performed).1
    · exact fun _ _ _ setUp exact performed => (step_exact_iff positive setUp exact performed).2

/-- Two characters of four bytes, of which a flush sends one. -/
def wideFlush : List (Call UInt32) := [.put 97, .put 98, .sync 1]

theorem exact_iff_careful_wideFlush :
    ∃ final, run (step 4) (start ⟨3, 4⟩) wideFlush = some final ∧
      (∀ count chars, chars ≤ count → (transferred 4 count (chars * 4) = some chars ↔ 4 = 1 ∨ chars = 0)) ∧
      (Always (step 4) Exact (start ⟨3, 4⟩) wideFlush ↔ Admits (step 4) (Careful 4) (start ⟨3, 4⟩) wideFlush) :=
  ⟨_, rfl, exact_iff_careful (by decide) ⟨3, 4⟩ wideFlush _ rfl⟩

/-- The pipe returns 4 for the one character it has sent, and the streambuf goes back by 4 from
the second of its cells. -/
theorem not_exact_wideFlush :
    transferred 4 2 (1 * 4) = some 4 ∧
      ∃ final, run (step 4) (start ⟨3, 4⟩) wideFlush = some final ∧ final.buf.pptr = -2 ∧ ¬final.Exact := by
  refine ⟨by decide, _, rfl, rfl, ?_⟩
  intro exact
  have lower := exact.put.lower
  revert lower
  decide

end Traffic
end BoostProcess.V1.Wide
