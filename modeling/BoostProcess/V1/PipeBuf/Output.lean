import BoostProcess.Library.Transition
import BoostProcess.V1.PipeBuf.Basic

/-! The output side of basic_pipebuf: sputc, overflow and sync over a pipe that may take less
than it is given.
-/

set_option autoImplicit false

namespace BoostProcess.V1

open BoostProcess.V2 (Errno)
open Posix (BasicPipe retry)
open Cells Transition

namespace PipeBuf

/-- `*pptr() = ch; pbump(1);` -/
def put (buf : PipeBuf) (c : UInt8) : PipeBuf :=
  { buf with write := buf.write.set buf.pptr c, pptr := buf.pptr + 1 }

/-- `_write_impl()` with what the calls of write(2) return, and the bytes that the pipe got.
There is no result where the calls do not end with 1 to `count` bytes. -/
def writeImpl (buf : PipeBuf) (calls : List (Except Errno Nat)) : Option (Bool × PipeBuf × List UInt8) :=
  if buf.pipe.isOpen = false then some (false, buf, [])
  else if buf.pbase = buf.pptr then some (true, buf, [])
  else
    let diff := buf.pptr - buf.pbase
    match retry calls with
    | some (.ok wrt) =>
      if 1 ≤ wrt ∧ wrt ≤ diff then
        let handed := window buf.write buf.pbase (buf.pbase + wrt)
        if wrt < diff then
          let moved := moveDown buf.write (buf.pbase + wrt) buf.pbase (diff - wrt)
          some (true, { buf with write := moved, pptr := buf.pptr - wrt }, handed)
        else if wrt = 0 then some (false, buf, handed)
        else some (true, { buf with pptr := buf.pptr - wrt }, handed)
      else none
    | _ => none

def overflow (buf : PipeBuf) (ch : Int) (calls : List (Except Errno Nat)) : Option (Int × PipeBuf × List UInt8) :=
  if buf.pipe.isOpen = true ∧ ch ≠ eof then
    if buf.pptr = buf.epptr then
      (buf.writeImpl calls).map fun (wr, buf, handed) =>
        if wr then (ch, buf.put (UInt8.ofInt ch), handed) else (eof, buf, handed)
    else
      ((buf.put (UInt8.ofInt ch)).writeImpl calls).map fun (wr, buf, handed) =>
        if wr then (ch, buf, handed) else (eof, buf, handed)
  else if ch = eof then (buf.writeImpl calls).map fun (_, buf, handed) => (eof, buf, handed)
  else some (eof, buf, [])

/-- `std::basic_streambuf::sputc` -/
def sputc (buf : PipeBuf) (c : UInt8) (calls : List (Except Errno Nat)) : Option (Int × PipeBuf × List UInt8) :=
  if buf.pptr < buf.epptr then some (toIntType c, buf.put c, [])
  else buf.overflow (toIntType c) calls

def sync (buf : PipeBuf) (calls : List (Except Errno Nat)) : Option (Int × PipeBuf × List UInt8) :=
  (buf.writeImpl calls).map fun (wr, buf, handed) => (if wr then 0 else -1, buf, handed)

end PipeBuf

/-- The calls of the output side. -/
inductive OutputCall where
  | sputc (c : UInt8)
  | overflow (ch : Int)
  | sync
  deriving DecidableEq

structure Output where
  buf : PipeBuf
  /-- The bytes that the pipe has got. -/
  handed : List UInt8
  /-- The characters of the calls that did not return eof. -/
  accepted : List UInt8

namespace Output

def start (pipe : BasicPipe) : Output := ⟨PipeBuf.ofPipe pipe, [], []⟩

/-- After a call: a result other than eof accepts the character. -/
def record (output : Output) (c : UInt8) : Int × PipeBuf × List UInt8 → Output
  | (result, buf, handed) =>
    ⟨buf, output.handed ++ handed, if result = eof then output.accepted else output.accepted ++ [c]⟩

/-- One call together with what write(2) returns during it. -/
def step (output : Output) : OutputCall × List (Except Errno Nat) → Option Output
  | (.sputc c, calls) => (output.buf.sputc c calls).map (output.record c)
  | (.overflow ch, calls) => (output.buf.overflow ch calls).map (output.record (UInt8.ofInt ch))
  | (.sync, calls) =>
    (output.buf.sync calls).map fun (_, buf, handed) => { output with buf := buf, handed := output.handed ++ handed }

end Output

namespace PipeBuf

/-- The pointers of the put area. -/
structure PutArea (buf : PipeBuf) : Prop where
  lower : buf.pbase ≤ buf.pptr
  upper : buf.pptr ≤ buf.epptr
  size : buf.epptr = buf.write.length
  room : buf.pbase < buf.epptr

theorem putArea_ofPipe (pipe : BasicPipe) : (ofPipe pipe).PutArea :=
  ⟨Nat.le_refl 0, Nat.zero_le _, List.length_replicate.symm, (by decide : 0 < defaultBufferSize)⟩

theorem put_spec {buf : PipeBuf} (area : buf.PutArea) (c : UInt8) (free : buf.pptr < buf.epptr) :
    (buf.put c).PutArea ∧ (buf.put c).pending = buf.pending ++ [c] := by
  have inside : buf.pptr < buf.write.length := by
    rw [← area.size]
    exact free
  exact ⟨⟨Nat.le_succ_of_le area.lower, free, area.size.trans List.length_set.symm, area.room⟩,
    window_snoc area.lower inside⟩

/-- What `_write_impl` can do: nothing, or move the tail that the pipe did not take to the base. -/
theorem writeImpl_cases {buf next : PipeBuf} {calls : List (Except Errno Nat)} {wr : Bool} {handed : List UInt8}
    (returned : buf.writeImpl calls = some (wr, next, handed)) :
    (buf.pipe.isOpen = false ∧ wr = false ∧ next = buf ∧ handed = []) ∨
      (buf.pipe.isOpen = true ∧ buf.pbase = buf.pptr ∧ wr = true ∧ next = buf ∧ handed = []) ∨
      (buf.pipe.isOpen = true ∧ ∃ wrt, 1 ≤ wrt ∧ wrt ≤ buf.pptr - buf.pbase ∧ wr = true ∧
        handed = window buf.write buf.pbase (buf.pbase + wrt) ∧
        next = { buf with
          write := moveDown buf.write (buf.pbase + wrt) buf.pbase (buf.pptr - buf.pbase - wrt)
          pptr := buf.pptr - wrt }) := by
  unfold writeImpl at returned
  split at returned
  · rename_i closed
    cases returned
    exact .inl ⟨closed, rfl, rfl, rfl⟩
  · rename_i isOpen
    rw [Bool.not_eq_false] at isOpen
    split at returned
    · rename_i empty
      cases returned
      exact .inr (.inl ⟨isOpen, empty, rfl, rfl, rfl⟩)
    · dsimp only at returned
      split at returned
      · rename_i wrt result
        split at returned
        · rename_i bounds
          obtain ⟨positive, most⟩ := bounds
          refine .inr (.inr ⟨isOpen, wrt, positive, most, ?_⟩)
          split at returned
          · cases returned
            exact ⟨rfl, rfl, rfl⟩
          · rename_i whole
            rw [if_neg (Nat.ne_of_gt positive)] at returned
            cases returned
            -- without a tail nothing is moved
            have none_left : buf.pptr - buf.pbase - wrt = 0 := by omega
            rw [none_left]
            exact ⟨rfl, rfl, rfl⟩
        · cases returned
      · cases returned

/-- When the pipe has taken some of the put area, the tail is moved to its base. -/
theorem PutArea.moved {buf : PipeBuf} (area : buf.PutArea) {wrt : Nat} (most : wrt ≤ buf.pptr - buf.pbase) :
    let next : PipeBuf := { buf with
      write := moveDown buf.write (buf.pbase + wrt) buf.pbase (buf.pptr - buf.pbase - wrt)
      pptr := buf.pptr - wrt }
    next.PutArea ∧ window buf.write buf.pbase (buf.pbase + wrt) ++ next.pending = buf.pending := by
  obtain ⟨lower, upper, size, room⟩ := area
  have tail := window_moveDown (show buf.pbase ≤ buf.pbase + wrt by omega)
    (show buf.pbase + wrt + (buf.pptr - buf.pbase - wrt) ≤ buf.write.length by omega)
  rw [show buf.pbase + (buf.pptr - buf.pbase - wrt) = buf.pptr - wrt by omega,
    show buf.pbase + wrt + (buf.pptr - buf.pbase - wrt) = buf.pptr by omega] at tail
  refine ⟨⟨?_, ?_, size.trans (moveDown_length _ _ _ _).symm, room⟩, ?_⟩
  · exact (by omega : buf.pbase ≤ buf.pptr - wrt)
  · exact (by omega : buf.pptr - wrt ≤ buf.epptr)
  · unfold pending
    rw [tail, window_append (by omega) (by omega)]

/-- What the pipe got and what is left in the put area are what the put area held. It only
stays full when the pipe is closed. -/
theorem writeImpl_spec {buf next : PipeBuf} {calls : List (Except Errno Nat)} {wr : Bool} {handed : List UInt8}
    (area : buf.PutArea) (returned : buf.writeImpl calls = some (wr, next, handed)) :
    next.PutArea ∧ handed ++ next.pending = buf.pending ∧ wr = buf.pipe.isOpen ∧
      (wr = true → next.pptr < next.epptr) := by
  rcases writeImpl_cases returned with ⟨closed, rfl, rfl, rfl⟩ | ⟨isOpen, empty, rfl, rfl, rfl⟩ |
    ⟨isOpen, wrt, positive, most, rfl, rfl, rfl⟩
  · exact ⟨area, rfl, closed.symm, nofun⟩
  · exact ⟨area, rfl, isOpen.symm, fun _ => empty ▸ area.room⟩
  · have rest := area.moved most
    refine ⟨rest.1, rest.2, isOpen.symm, fun _ => ?_⟩
    have upper := area.upper
    have room := area.room
    exact (by omega : buf.pptr - wrt < buf.epptr)

/-- One call of overflow: the character is behind what was pending, or the put area has only
lost what the pipe got. -/
theorem overflow_spec {buf next : PipeBuf} {ch result : Int} {calls : List (Except Errno Nat)} {handed : List UInt8}
    (area : buf.PutArea) (returned : buf.overflow ch calls = some (result, next, handed)) :
    next.PutArea ∧
      handed ++ next.pending = if result = eof then buf.pending else buf.pending ++ [UInt8.ofInt ch] := by
  unfold overflow at returned
  split at returned
  · rename_i accepts
    obtain ⟨isOpen, char⟩ := accepts
    split at returned
    · obtain ⟨⟨wr, written, sent⟩, call, same⟩ := Option.map_eq_some_iff.mp returned
      obtain ⟨kept, conserved, outcome, free⟩ := writeImpl_spec area call
      rw [isOpen] at outcome
      subst outcome
      cases same
      obtain ⟨area', stored⟩ := put_spec kept (UInt8.ofInt ch) (free rfl)
      rw [if_neg char, stored, ← conserved, List.append_assoc]
      exact ⟨area', rfl⟩
    · rename_i notFull
      obtain ⟨⟨wr, written, sent⟩, call, same⟩ := Option.map_eq_some_iff.mp returned
      obtain ⟨area', stored⟩ := put_spec area (UInt8.ofInt ch) (Nat.lt_of_le_of_ne area.upper notFull)
      obtain ⟨kept, conserved, outcome, -⟩ := writeImpl_spec area' call
      have stays : (buf.put (UInt8.ofInt ch)).pipe = buf.pipe := rfl
      rw [stays, isOpen] at outcome
      subst outcome
      cases same
      rw [if_neg char, ← stored]
      exact ⟨kept, conserved⟩
  · split at returned
    · obtain ⟨⟨wr, written, sent⟩, call, same⟩ := Option.map_eq_some_iff.mp returned
      obtain ⟨kept, conserved, -, -⟩ := writeImpl_spec area call
      cases same
      rw [if_pos rfl]
      exact ⟨kept, conserved⟩
    · cases returned
      rw [if_pos rfl]
      exact ⟨area, rfl⟩

end PipeBuf

namespace Output

/-- Every accepted character is in the pipe or in the put area, in order. -/
structure Conserved (output : Output) : Prop where
  area : output.buf.PutArea
  total : output.handed ++ output.buf.pending = output.accepted

theorem conserved_start (pipe : BasicPipe) : (start pipe).Conserved :=
  ⟨PipeBuf.putArea_ofPipe pipe, rfl⟩

/-- A call that hands bytes over, and accepts its character unless it returns eof. -/
theorem Conserved.record {output : Output} (conserved : output.Conserved) {c : UInt8} {result : Int} {buf : PipeBuf}
    {handed : List UInt8} (area : buf.PutArea)
    (total : handed ++ buf.pending = if result = eof then output.buf.pending else output.buf.pending ++ [c]) :
    (output.record c (result, buf, handed)).Conserved := by
  refine ⟨area, ?_⟩
  change output.handed ++ handed ++ buf.pending = if result = eof then output.accepted else output.accepted ++ [c]
  rw [List.append_assoc, total, ← conserved.total]
  split
  · rfl
  · rw [List.append_assoc]

theorem preserves_conserved : Preserves step (fun _ _ => True) Conserved := by
  intro output label next conserved _ taken
  obtain ⟨call, calls⟩ := label
  cases call with
  | sputc c =>
    obtain ⟨⟨result, buf, handed⟩, returned, rfl⟩ := Option.map_eq_some_iff.mp taken
    unfold PipeBuf.sputc at returned
    split at returned
    · rename_i free
      cases returned
      obtain ⟨area, stored⟩ := PipeBuf.put_spec conserved.area c free
      refine conserved.record area ?_
      rw [if_neg (toIntType_ne_eof c)]
      exact stored
    · obtain ⟨area, total⟩ := PipeBuf.overflow_spec conserved.area returned
      rw [ofInt_toIntType] at total
      exact conserved.record area total
  | overflow ch =>
    obtain ⟨⟨result, buf, handed⟩, returned, rfl⟩ := Option.map_eq_some_iff.mp taken
    obtain ⟨area, total⟩ := PipeBuf.overflow_spec conserved.area returned
    exact conserved.record area total
  | sync =>
    obtain ⟨⟨result, buf, handed⟩, returned, rfl⟩ := Option.map_eq_some_iff.mp taken
    obtain ⟨⟨wr, written, sent⟩, call, same⟩ := Option.map_eq_some_iff.mp returned
    cases same
    obtain ⟨area, total, -, -⟩ := PipeBuf.writeImpl_spec conserved.area call
    refine ⟨area, ?_⟩
    change output.handed ++ handed ++ buf.pending = output.accepted
    rw [List.append_assoc, total, conserved.total]

/-- After any calls, and whatever part of its bytes each write(2) takes, the bytes that the
pipe got followed by the put area are the accepted characters. -/
theorem handed_append_pending (pipe : BasicPipe) (calls : List (OutputCall × List (Except Errno Nat))) (output : Output)
    (reached : run step (start pipe) calls = some output) :
    output.handed ++ output.buf.pending = output.accepted :=
  (run_invariant preserves_conserved (conserved_start pipe) admits_true reached).total

/-- Two characters and a write that is interrupted once and then takes one byte. -/
def shortWrite : List (OutputCall × List (Except Errno Nat)) :=
  [(.sputc 97, []), (.overflow 98, [.error .EINTR, .ok 1])]

theorem handed_append_pending_shortWrite :
    ∃ output, run step (start ⟨3, 4⟩) shortWrite = some output ∧ output.handed = [97] ∧
      output.handed ++ output.buf.pending = output.accepted :=
  ⟨_, rfl, rfl, handed_append_pending ⟨3, 4⟩ shortWrite _ rfl⟩

end Output
end BoostProcess.V1
