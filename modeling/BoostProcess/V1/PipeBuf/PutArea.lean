import BoostProcess.V1.PipeBuf.Output

/-! The bounds of the put area, whatever pipe.write returns.

On Windows basic_pipe::write returns 0 for a broken pipe, so here a count is anything from 0 to
the size of the put area. What is recorded of a call is also where it stores characters.
-/

set_option autoImplicit false

namespace BoostProcess.V1

open Posix (BasicPipe)
open Cells Transition

namespace PipeBuf

/-- What a call does: its result, none if it throws, the buffer it leaves, the bytes that the
pipe got, and the offsets in the buffer that it stored characters at. -/
structure Effect (Result : Type) where
  result : Option Result
  buf : PipeBuf
  handed : List UInt8
  stored : List Nat

def Effect.map {Result Other : Type} (f : Result → Other) (effect : Effect Result) : Effect Other :=
  ⟨effect.result.map f, effect.buf, effect.handed, effect.stored⟩

/-- `_write_impl()` with what `pipe.write` returns, or none if that throws. A count is at most
what was asked for. -/
def writeOnce (buf : PipeBuf) (written : Option Nat) : Option (Effect Bool) :=
  if buf.pipe.isOpen = false then some ⟨some false, buf, [], []⟩
  else if buf.pbase = buf.pptr then some ⟨some true, buf, [], []⟩
  else
    match written with
    | none => some ⟨none, buf, [], []⟩
    | some wrt =>
      let diff := buf.pptr - buf.pbase
      if diff < wrt then none
      else
        let handed := window buf.write buf.pbase (buf.pbase + wrt)
        if wrt < diff then
          let moved := moveDown buf.write (buf.pbase + wrt) buf.pbase (diff - wrt)
          some ⟨some true, { buf with write := moved, pptr := buf.pptr - wrt }, handed, List.range' buf.pbase (diff - wrt)⟩
        else if wrt = 0 then some ⟨some false, buf, handed, []⟩
        else some ⟨some true, { buf with pptr := buf.pptr - wrt }, handed, []⟩

def syncOnce (buf : PipeBuf) (written : Option Nat) : Option (Effect Int) :=
  (buf.writeOnce written).map fun effect => effect.map fun wr => if wr then 0 else -1

def overflowOnce (buf : PipeBuf) (ch : Int) (written : Option Nat) : Option (Effect Int) :=
  if buf.pipe.isOpen = true ∧ ch ≠ eof then
    if buf.pptr = buf.epptr then
      (buf.writeOnce written).map fun effect =>
        match effect.result with
        | some true =>
          ⟨some ch, effect.buf.put (UInt8.ofInt ch), effect.handed, effect.stored ++ [effect.buf.pptr]⟩
        | some false => ⟨some eof, effect.buf, effect.handed, effect.stored⟩
        | none => ⟨none, effect.buf, effect.handed, effect.stored⟩
    else
      ((buf.put (UInt8.ofInt ch)).writeOnce written).map fun effect =>
        { effect.map fun wr => if wr then ch else eof with stored := buf.pptr :: effect.stored }
  else if ch = eof then (buf.syncOnce written).map fun effect => effect.map fun _ => eof
  else some ⟨some eof, buf, [], []⟩

def sputcOnce (buf : PipeBuf) (c : UInt8) (written : Option Nat) : Option (Effect Int) :=
  if buf.pptr < buf.epptr then some ⟨some (toIntType c), buf.put c, [], [buf.pptr]⟩
  else buf.overflowOnce (toIntType c) written

end PipeBuf

/-- A pipebuf and where its calls have stored characters. -/
structure PutSide where
  buf : PipeBuf
  stored : List Nat

namespace PutSide

def start (pipe : BasicPipe) : PutSide := ⟨PipeBuf.ofPipe pipe, []⟩

def record {Result : Type} (side : PutSide) (effect : PipeBuf.Effect Result) : PutSide :=
  ⟨effect.buf, side.stored ++ effect.stored⟩

/-- One call together with what `pipe.write` does if it is called. -/
def step (side : PutSide) : OutputCall × Option Nat → Option PutSide
  | (.sputc c, written) => (side.buf.sputcOnce c written).map side.record
  | (.overflow ch, written) => (side.buf.overflowOnce ch written).map side.record
  | (.sync, written) => (side.buf.syncOnce written).map side.record

/-- The pointers are in order, and no character has been stored at `epptr` or behind it. -/
structure Bounded (side : PutSide) : Prop where
  lower : side.buf.pbase ≤ side.buf.pptr
  upper : side.buf.pptr ≤ side.buf.epptr
  inside : ∀ offset ∈ side.stored, offset < side.buf.epptr

/-- What `setp` has set up, and no call changes. -/
structure SetUp (side : PutSide) : Prop where
  size : side.buf.epptr = side.buf.write.length
  room : side.buf.pbase < side.buf.epptr

/-- The call stores a character, unless the pipe is closed. -/
def stores : OutputCall → Prop
  | .sputc _ => True
  | .overflow ch => ch ≠ eof
  | .sync => False

/-- No character comes while the put area is full and the pipe takes nothing. -/
def TakesSome (side : PutSide) (label : OutputCall × Option Nat) : Prop :=
  ¬(stores label.1 ∧ side.buf.pipe.isOpen = true ∧ side.buf.pptr = side.buf.epptr ∧ label.2 = some 0)

end PutSide

namespace PipeBuf

/-- What one call of `_write_impl` can do while the pointers are in order. Its branch for a
broken pipe is never taken: a put area that is not empty is longer than 0. -/
theorem writeOnce_cases {buf : PipeBuf} {written : Option Nat} {effect : Effect Bool} (lower : buf.pbase ≤ buf.pptr)
    (returned : buf.writeOnce written = some effect) :
    (effect = ⟨some (buf.pipe.isOpen), buf, [], []⟩ ∧ (buf.pipe.isOpen = false ∨ buf.pbase = buf.pptr)) ∨
      (buf.pipe.isOpen = true ∧ buf.pbase < buf.pptr ∧ written = none ∧ effect = ⟨none, buf, [], []⟩) ∨
      (buf.pipe.isOpen = true ∧ buf.pbase < buf.pptr ∧ ∃ wrt, written = some wrt ∧ wrt ≤ buf.pptr - buf.pbase ∧
        effect = ⟨some true,
          { buf with
            write := moveDown buf.write (buf.pbase + wrt) buf.pbase (buf.pptr - buf.pbase - wrt)
            pptr := buf.pptr - wrt },
          window buf.write buf.pbase (buf.pbase + wrt), List.range' buf.pbase (buf.pptr - buf.pbase - wrt)⟩) := by
  unfold writeOnce at returned
  split at returned
  · rename_i closed
    cases returned
    exact .inl ⟨by rw [closed], .inl closed⟩
  · rename_i isOpen
    rw [Bool.not_eq_false] at isOpen
    split at returned
    · rename_i empty
      cases returned
      exact .inl ⟨by rw [isOpen], .inr empty⟩
    · rename_i apart
      have some_pending : buf.pbase < buf.pptr := Nat.lt_of_le_of_ne lower apart
      cases written with
      | none =>
        cases returned
        exact .inr (.inl ⟨isOpen, some_pending, rfl, rfl⟩)
      | some wrt =>
        dsimp only at returned
        split at returned
        · cases returned
        · rename_i most
          refine .inr (.inr ⟨isOpen, some_pending, wrt, rfl, Nat.le_of_not_lt most, ?_⟩)
          split at returned
          · cases returned
            rfl
          · rename_i whole
            have positive : wrt ≠ 0 := by omega
            have none_left : buf.pptr - buf.pbase - wrt = 0 := by omega
            rw [if_neg positive] at returned
            cases returned
            rw [none_left]
            rfl

/-- One call of `_write_impl` keeps the put area and stores inside of it. It makes room in a full
one unless the pipe takes nothing. -/
theorem writeOnce_spec {buf : PipeBuf} {written : Option Nat} {effect : Effect Bool} (area : buf.PutArea)
    (returned : buf.writeOnce written = some effect) :
    effect.buf.PutArea ∧ effect.buf.epptr = buf.epptr ∧ (∀ offset ∈ effect.stored, offset < buf.epptr) ∧
      (effect.result = none → written = none) ∧ (effect.result = some false → buf.pipe.isOpen = false) ∧
      (effect.result = some true → (effect.buf.pptr = effect.buf.epptr ↔ buf.pptr = buf.epptr ∧ written = some 0)) := by
  have upper := area.upper
  have room := area.room
  rcases writeOnce_cases area.lower returned with ⟨rfl, idle⟩ | ⟨isOpen, pending, rfl, rfl⟩ |
    ⟨isOpen, pending, wrt, rfl, most, rfl⟩
  · refine ⟨area, rfl, by simp, nofun, Option.some.inj, ?_⟩
    intro opened
    have empty : buf.pbase = buf.pptr := idle.resolve_left (by simp [Option.some.inj opened])
    have not_full : buf.pptr ≠ buf.epptr := empty ▸ Nat.ne_of_lt room
    exact iff_of_false not_full fun ⟨full, _⟩ => not_full full
  · exact ⟨area, rfl, by simp, fun _ => rfl, nofun, nofun⟩
  · refine ⟨(area.moved most).1, rfl, ?_, nofun, nofun, ?_⟩
    · intro offset member
      rw [List.mem_range'_1] at member
      omega
    · intro _
      simp only [Option.some.injEq]
      omega

/-- Where the pipe takes at least one byte, this is the call of the other model. -/
theorem writeOnce_of_writeImpl {buf next : PipeBuf} {calls : List (Except V2.Errno Nat)} {wr : Bool} {handed : List UInt8}
    (area : buf.PutArea) (returned : buf.writeImpl calls = some (wr, next, handed)) :
    ∃ written stored, buf.writeOnce written = some ⟨some wr, next, handed, stored⟩ := by
  rcases writeImpl_cases returned with ⟨closed, rfl, rfl, rfl⟩ | ⟨isOpen, empty, rfl, rfl, rfl⟩ |
    ⟨isOpen, wrt, positive, most, rfl, rfl, rfl⟩
  · exact ⟨none, [], by rw [writeOnce, if_pos closed]⟩
  · exact ⟨none, [], by rw [writeOnce, if_neg (by simp [isOpen]), if_pos empty]⟩
  · have apart : ¬buf.pbase = buf.pptr := by omega
    have fits : ¬buf.pptr - buf.pbase < wrt := by omega
    refine ⟨some wrt, List.range' buf.pbase (buf.pptr - buf.pbase - wrt), ?_⟩
    by_cases short : wrt < buf.pptr - buf.pbase
    · simp [writeOnce, isOpen, apart, fits, short]
    · have none_left : buf.pptr - buf.pbase - wrt = 0 := by omega
      simp [writeOnce, isOpen, apart, fits, short, Nat.ne_of_gt positive, none_left, moveDown]

/-- A call stays inside of the put area, or stores its character behind the end. -/
def Effect.Stays {Result : Type} (effect : Effect Result) (buf : PipeBuf) (careful : Prop) : Prop :=
  effect.buf.epptr = buf.epptr ∧ effect.buf.epptr = effect.buf.write.length ∧ effect.buf.pbase < effect.buf.epptr ∧
    (careful → effect.buf.PutArea ∧ ∀ offset ∈ effect.stored, offset < buf.epptr) ∧
    (¬careful → ∃ offset ∈ effect.stored, buf.epptr ≤ offset)

theorem Effect.stays_of_area {Result : Type} {effect : Effect Result} {buf : PipeBuf} {careful : Prop} (met : careful)
    (same : effect.buf.epptr = buf.epptr) (area : effect.buf.PutArea)
    (inside : ∀ offset ∈ effect.stored, offset < buf.epptr) : effect.Stays buf careful :=
  ⟨same, area.size, area.room, fun _ => ⟨area, inside⟩, fun refused => absurd met refused⟩

/-- What overflow does to a full put area of an open pipe: the character goes where the write has
made room for it, and to the end if it has made none. -/
def Effect.append (effect : Effect Bool) (ch : Int) : Effect Int :=
  match effect.result with
  | some true => ⟨some ch, effect.buf.put (UInt8.ofInt ch), effect.handed, effect.stored ++ [effect.buf.pptr]⟩
  | some false => ⟨some eof, effect.buf, effect.handed, effect.stored⟩
  | none => ⟨none, effect.buf, effect.handed, effect.stored⟩

theorem append_stays {buf : PipeBuf} {ch : Int} {written : Option Nat} {tried : Effect Bool} (area : buf.PutArea)
    (char : ch ≠ eof) (isOpen : buf.pipe.isOpen = true) (full : buf.pptr = buf.epptr)
    (returned : buf.writeOnce written = some tried) :
    (tried.append ch).Stays buf ¬(ch ≠ eof ∧ buf.pipe.isOpen = true ∧ buf.pptr = buf.epptr ∧ written = some 0) := by
  obtain ⟨kept, same, inside, threw, refused, stuck⟩ := writeOnce_spec area returned
  unfold Effect.append
  cases outcome : tried.result with
  | none =>
    apply Effect.stays_of_area _ same kept inside
    rintro ⟨-, -, -, took⟩
    rw [threw outcome] at took
    cases took
  | some wr =>
    cases wr with
    | false =>
      rw [refused outcome] at isOpen
      cases isOpen
    | true =>
      have filled := stuck outcome
      by_cases nothing : written = some 0
      · -- the put area is still full
        have behind : tried.buf.pptr = tried.buf.epptr := filled.mpr ⟨full, nothing⟩
        refine ⟨same, kept.size.trans List.length_set.symm, kept.room, ?_, ?_⟩
        · exact fun careful => absurd ⟨char, isOpen, full, nothing⟩ careful
        · exact fun _ => ⟨tried.buf.pptr, by simp, by omega⟩
      · have free : tried.buf.pptr < tried.buf.epptr :=
          Nat.lt_of_le_of_ne kept.upper fun behind => nothing (filled.mp behind).2
        refine Effect.stays_of_area ?_ same (put_spec kept (UInt8.ofInt ch) free).1 ?_
        · exact fun ⟨_, _, _, took⟩ => nothing took
        · intro offset member
          rcases List.mem_append.mp member with moved | last
          · exact inside offset moved
          · rw [List.mem_singleton.mp last]
            omega

theorem overflowOnce_stays {buf : PipeBuf} {ch : Int} {written : Option Nat} {effect : Effect Int} (area : buf.PutArea)
    (returned : buf.overflowOnce ch written = some effect) :
    effect.Stays buf ¬(ch ≠ eof ∧ buf.pipe.isOpen = true ∧ buf.pptr = buf.epptr ∧ written = some 0) := by
  unfold overflowOnce at returned
  split at returned
  · rename_i accepts
    obtain ⟨isOpen, char⟩ := accepts
    split at returned
    · rename_i full
      obtain ⟨tried, call, rfl⟩ := Option.map_eq_some_iff.mp returned
      exact append_stays area char isOpen full call
    · rename_i notFull
      obtain ⟨tried, call, rfl⟩ := Option.map_eq_some_iff.mp returned
      have free : buf.pptr < buf.epptr := Nat.lt_of_le_of_ne area.upper notFull
      obtain ⟨kept, same, inside, -⟩ := writeOnce_spec (put_spec area (UInt8.ofInt ch) free).1 call
      refine Effect.stays_of_area ?_ same kept (List.forall_mem_cons.mpr ⟨free, inside⟩)
      exact fun ⟨_, _, full, _⟩ => notFull full
  · rename_i refused
    have careful : ¬(ch ≠ eof ∧ buf.pipe.isOpen = true ∧ buf.pptr = buf.epptr ∧ written = some 0) :=
      fun ⟨char, isOpen, _, _⟩ => refused ⟨isOpen, char⟩
    split at returned
    · obtain ⟨synced, call, rfl⟩ := Option.map_eq_some_iff.mp returned
      obtain ⟨tried, attempt, rfl⟩ := Option.map_eq_some_iff.mp call
      obtain ⟨kept, same, inside, -⟩ := writeOnce_spec area attempt
      exact Effect.stays_of_area careful same kept inside
    · cases returned
      exact Effect.stays_of_area careful rfl area (by simp)

end PipeBuf

namespace PutSide

/-- What a call does to the bounds, once its effect is known. -/
theorem record_bounded {Result : Type} {side : PutSide} {effect : PipeBuf.Effect Result} {careful : Prop}
    (bounded : side.Bounded) (stays : effect.Stays side.buf careful) :
    (side.record effect).SetUp ∧ ((side.record effect).Bounded ↔ careful) := by
  obtain ⟨same, size, room, kept, lost⟩ := stays
  refine ⟨⟨size, room⟩, ?_, ?_⟩
  · intro next
    by_contra careless
    obtain ⟨offset, member, behind⟩ := lost careless
    have inside : offset < effect.buf.epptr := next.inside offset (List.mem_append_right _ member)
    omega
  · intro met
    obtain ⟨area, inside⟩ := kept met
    refine ⟨area.lower, area.upper, ?_⟩
    intro offset member
    change offset < effect.buf.epptr
    rw [same]
    rcases List.mem_append.mp member with old | new
    · exact bounded.inside offset old
    · exact inside offset new

theorem step_bounded {side next : PutSide} {label : OutputCall × Option Nat} (setUp : side.SetUp) (bounded : side.Bounded)
    (taken : step side label = some next) : next.SetUp ∧ (next.Bounded ↔ side.TakesSome label) := by
  have area : side.buf.PutArea := ⟨bounded.lower, bounded.upper, setUp.size, setUp.room⟩
  obtain ⟨call, written⟩ := label
  cases call with
  | sputc c =>
    obtain ⟨effect, returned, rfl⟩ := Option.map_eq_some_iff.mp taken
    apply record_bounded bounded
    unfold PipeBuf.sputcOnce at returned
    split at returned
    · rename_i free
      cases returned
      refine PipeBuf.Effect.stays_of_area ?_ rfl (PipeBuf.put_spec area c free).1 (by simpa using free)
      exact fun ⟨_, _, full, _⟩ => Nat.ne_of_lt free full
    · have stays := PipeBuf.overflowOnce_stays area returned
      simp only [ne_eq, toIntType_ne_eof, not_false_eq_true] at stays
      exact stays
  | overflow ch =>
    obtain ⟨effect, returned, rfl⟩ := Option.map_eq_some_iff.mp taken
    exact record_bounded bounded (PipeBuf.overflowOnce_stays area returned)
  | sync =>
    obtain ⟨effect, returned, rfl⟩ := Option.map_eq_some_iff.mp taken
    obtain ⟨tried, call, rfl⟩ := Option.map_eq_some_iff.mp returned
    obtain ⟨kept, same, inside, -⟩ := PipeBuf.writeOnce_spec area call
    apply record_bounded bounded
    exact PipeBuf.Effect.stays_of_area (fun ⟨stored, _⟩ => stored) same kept inside

/-- In a run over any results of `pipe.write`, the bounds hold all along exactly if no character
comes while the put area is full and the pipe takes nothing. -/
theorem bounded_iff_takesSome (pipe : BasicPipe) (calls : List (OutputCall × Option Nat)) (side : PutSide)
    (reached : run step (start pipe) calls = some side) :
    Always step Bounded (start pipe) calls ↔ Admits step TakesSome (start pipe) calls := by
  have area := PipeBuf.putArea_ofPipe pipe
  have setUp : (start pipe).SetUp := ⟨area.size, area.room⟩
  have bounded : (start pipe).Bounded := ⟨area.lower, area.upper, by simp [start]⟩
  apply always_iff_admits _ _ setUp bounded reached
  · exact fun state label next setUp bounded taken => (step_bounded setUp bounded taken).1
  · exact fun state label next setUp bounded taken => (step_bounded setUp bounded taken).2

/-- A character and a flush that finds the pipe broken, which leaves the character where it is. -/
theorem bounded_iff_takesSome_broken :
    ∃ side, run step (start ⟨3, 4⟩) [(.sputc 97, none), (.sync, some 0)] = some side ∧
      (Always step Bounded (start ⟨3, 4⟩) [(.sputc 97, none), (.sync, some 0)] ↔
        Admits step TakesSome (start ⟨3, 4⟩) [(.sputc 97, none), (.sync, some 0)]) :=
  ⟨_, rfl, bounded_iff_takesSome ⟨3, 4⟩ _ _ rfl⟩

/-- Characters go into the put area as long as there is room for them. -/
theorem fill (c : UInt8) (count : Nat) {side : PutSide} (room : side.buf.pptr + count ≤ side.buf.epptr) :
    ∃ next, run step side (List.replicate count (.sputc c, none)) = some next ∧ next.buf.pipe = side.buf.pipe ∧
      next.buf.pbase = side.buf.pbase ∧ next.buf.epptr = side.buf.epptr ∧ next.buf.pptr = side.buf.pptr + count := by
  induction count generalizing side with
  | zero => exact ⟨side, rfl, rfl, rfl, rfl, rfl⟩
  | succ count ih =>
    have free : side.buf.pptr < side.buf.epptr := by omega
    let stored := @record Int side ⟨some (toIntType c), side.buf.put c, [], [side.buf.pptr]⟩
    have taken : step side (.sputc c, none) = some stored := by
      simp only [step, PipeBuf.sputcOnce, if_pos free, Option.map_some, stored]
    obtain ⟨next, reached, pipe, base, last, pointer⟩ := @ih stored (show side.buf.pptr + 1 + count ≤ side.buf.epptr by omega)
    refine ⟨next, ?_, pipe, base, last, ?_⟩
    · rw [List.replicate_succ]
      exact run_cons.mpr ⟨stored, taken, reached⟩
    · rw [pointer]
      exact (by omega : side.buf.pptr + 1 + count = side.buf.pptr + (count + 1))

/-- The put area is filled, and the pipe is broken when one more character comes. -/
theorem not_bounded_full :
    ¬∀ (calls : List (OutputCall × Option Nat)) (side : PutSide),
      run step (start ⟨3, 4⟩) calls = some side → side.Bounded := by
  intro holds
  obtain ⟨full, reached, pipe, base, last, pointer⟩ :=
    @fill 97 1024 (start ⟨3, 4⟩) (show 0 + 1024 ≤ defaultBufferSize by decide)
  have last : full.buf.epptr = 1024 := last
  have pointer : full.buf.pptr = 1024 := pointer
  have base : full.buf.pbase = 0 := base
  have isOpen : full.buf.pipe.isOpen = true := by
    rw [pipe]
    rfl
  have taken : ∃ next, step full (.sputc 98, some 0) = some next ∧ next.buf.pptr = 1025 ∧ next.buf.epptr = 1024 := by
    simp [step, PipeBuf.sputcOnce, PipeBuf.overflowOnce, PipeBuf.writeOnce, toIntType_ne_eof, record, PipeBuf.put,
      isOpen, last, pointer, base]
  obtain ⟨next, taken, beyond, ends⟩ := taken
  have again : run step full [(.sputc 98, some 0)] = some next := run_cons.mpr ⟨next, taken, rfl⟩
  have upper := (holds _ next (run_append reached again)).upper
  omega

end PutSide
end BoostProcess.V1
