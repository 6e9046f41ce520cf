import BoostProcess.Library.Transition
import BoostProcess.V1.PipeBuf.Basic

/-! The input side of basic_pipebuf: sgetc and sbumpc over a pipe that delivers its bytes in
chunks of any size.
-/

set_option autoImplicit false

namespace BoostProcess.V1

open BoostProcess.V2 (Errno)
open Posix (BasicPipe retry)
open Cells Transition

namespace PipeBuf

def setg (buf : PipeBuf) (eback gptr egptr : Nat) : PipeBuf :=
  { buf with eback := eback, gptr := gptr, egptr := egptr }

/-- The offset of `&_read.back()`. -/
def back (buf : PipeBuf) : Nat := buf.read.length - 1

/-- `if (egptr() == &_read.back()) setg(_read.data(), _read.data() + 10, _read.data() + 10);` -/
def rewind (buf : PipeBuf) : PipeBuf :=
  if buf.egptr = buf.back then buf.setg 0 10 10 else buf

/-- `*gptr()` -/
def current (buf : PipeBuf) : Int := (buf.read[buf.gptr]?.map toIntType).getD eof

end PipeBuf

/-- A pipebuf and the bytes that its pipe has not delivered yet. -/
structure Input where
  buf : PipeBuf
  incoming : List UInt8
  /-- The lengths that were passed to `pipe.read`. -/
  asked : List Int
  /-- The results of the calls. -/
  results : List Int

inductive InputCall where
  | sgetc
  | sbumpc
  deriving DecidableEq

namespace Input

def start (pipe : BasicPipe) (incoming : List UInt8) : Input := ⟨PipeBuf.ofPipe pipe, incoming, [], []⟩

/-- What read(2) may return: nothing at the end or for nothing, some bytes otherwise. -/
def Answers (incoming : List UInt8) (len : Int) (res : Nat) : Prop :=
  res = 0 ∧ (incoming = [] ∨ len ≤ 0) ∨ 1 ≤ res ∧ (res : Int) ≤ len ∧ res ≤ incoming.length

instance (incoming : List UInt8) (len : Int) (res : Nat) : Decidable (Answers incoming len res) :=
  inferInstanceAs (Decidable (_ ∨ _))

/-- `&_read.back() - egptr()` -/
def len (input : Input) : Int := input.buf.back - input.buf.egptr

/-- read(2) has stored its bytes behind the get area. -/
def store (input : Input) (res : Nat) : Input :=
  { input with
    buf := { input.buf with read := storeAll input.buf.read input.buf.egptr (input.incoming.take res) }
    incoming := input.incoming.drop res
    asked := input.asked ++ [input.len] }

/-- `pipe.read(egptr, len)` -/
def read (input : Input) (calls : List (Except Errno Nat)) : Option (Nat × Input) :=
  match retry calls with
  | some (.ok res) => if Answers input.incoming input.len res then some (res, input.store res) else none
  | _ => none

/-- `setg(eback(), gptr(), egptr() + res)` -/
def grow (input : Input) (res : Nat) : Input :=
  { input with buf := input.buf.setg input.buf.eback input.buf.gptr (input.buf.egptr + res) }

def underflow (input : Input) (calls : List (Except Errno Nat)) : Option (Int × Input) :=
  if input.buf.pipe.isOpen = false then some (eof, input)
  else
    (({ input with buf := input.buf.rewind } : Input).read calls).map fun (res, input) =>
      if res = 0 then (eof, input) else ((input.grow res).buf.current, input.grow res)

/-- `gbump(1)` -/
def bump (input : Input) : Input :=
  { input with buf := { input.buf with gptr := input.buf.gptr + 1 } }

/-- `std::basic_streambuf::sgetc` -/
def sgetc (input : Input) (calls : List (Except Errno Nat)) : Option (Int × Input) :=
  if input.buf.gptr < input.buf.egptr then some (input.buf.current, input) else input.underflow calls

/-- `std::basic_streambuf::sbumpc`, which calls uflow and that underflow. -/
def sbumpc (input : Input) (calls : List (Except Errno Nat)) : Option (Int × Input) :=
  if input.buf.gptr < input.buf.egptr then some (input.buf.current, input.bump)
  else
    (input.underflow calls).map fun (result, input) =>
      if result = eof then (eof, input) else (result, input.bump)

def record : Int × Input → Input
  | (result, input) => { input with results := input.results ++ [result] }

/-- One call together with what read(2) returns during it. -/
def step (input : Input) : InputCall × List (Except Errno Nat) → Option Input
  | (.sgetc, calls) => (input.sgetc calls).map record
  | (.sbumpc, calls) => (input.sbumpc calls).map record

/-! ## What the calls should return -/

/-- The next character, or eof behind the last. -/
def front : List UInt8 → Int
  | [] => eof
  | c :: _ => toIntType c

/-- The results of the calls on a stream of the given characters. -/
def expected (stream : List UInt8) : List InputCall → List Int
  | [] => []
  | .sgetc :: rest => front stream :: expected stream rest
  | .sbumpc :: rest => front stream :: expected stream.tail rest

/-- The characters that are still to be delivered. -/
def remaining (input : Input) : List UInt8 := input.buf.unread ++ input.incoming

end Input

/-- `eback() <= gptr() <= egptr() <= &_read.back()` -/
structure PipeBuf.GetArea (buf : PipeBuf) : Prop where
  lower : buf.eback ≤ buf.gptr
  middle : buf.gptr ≤ buf.egptr
  upper : buf.egptr ≤ buf.back

/-- What holds between the calls. -/
structure Input.Sound (input : Input) : Prop where
  isOpen : input.buf.pipe.isOpen = true
  size : input.buf.read.length = defaultBufferSize
  base : input.buf.eback = 0
  area : input.buf.GetArea
  positive : ∀ len ∈ input.asked, 0 < len

namespace Input

theorem sound_start {pipe : BasicPipe} (isOpen : pipe.isOpen = true) (incoming : List UInt8) : (start pipe incoming).Sound where
  isOpen := isOpen
  size := List.length_replicate
  base := rfl
  area := by
    refine ⟨Nat.zero_le _, Nat.le_refl _, ?_⟩
    unfold PipeBuf.back
    rw [show (start pipe incoming).buf.read.length = defaultBufferSize from List.length_replicate]
    exact (by decide : 128 ≤ defaultBufferSize - 1)
  positive := nofun

@[simp] theorem remaining_start (pipe : BasicPipe) (incoming : List UInt8) : (start pipe incoming).remaining = incoming := by
  have unread : (start pipe incoming).buf.unread = [] := window_self _ _
  unfold remaining
  rw [unread]
  rfl

/-- Starting again at offset 10 leaves room in front of the last cell. -/
theorem Sound.rewind {input : Input} (sound : input.Sound) (empty : input.buf.gptr = input.buf.egptr) :
    ({ input with buf := input.buf.rewind } : Input).Sound ∧ input.buf.rewind.gptr = input.buf.rewind.egptr ∧
      input.buf.rewind.egptr < input.buf.rewind.back := by
  obtain ⟨isOpen, size, base, area, positive⟩ := sound
  have back : input.buf.back = 1023 := by
    unfold PipeBuf.back
    rw [size]
    rfl
  unfold PipeBuf.rewind
  split
  · refine ⟨⟨isOpen, size, rfl, ⟨Nat.zero_le _, Nat.le_refl _, ?_⟩, positive⟩, rfl, ?_⟩
    · change 10 ≤ input.buf.back
      omega
    · change 10 < input.buf.back
      omega
  · rename_i room
    exact ⟨⟨isOpen, size, base, area, positive⟩, empty, Nat.lt_of_le_of_ne area.upper room⟩

theorem read_cases {input next : Input} {calls : List (Except Errno Nat)} {res : Nat}
    (returned : input.read calls = some (res, next)) : Answers input.incoming input.len res ∧ next = input.store res := by
  unfold read at returned
  split at returned
  · split at returned
    · rename_i answers
      cases returned
      exact ⟨answers, rfl⟩
    · cases returned
  · cases returned

theorem unread_chunk {buf : PipeBuf} {chunk : List UInt8} (empty : buf.gptr = buf.egptr)
    (room : buf.egptr + chunk.length ≤ buf.read.length) :
    window (storeAll buf.read buf.egptr chunk) buf.gptr (buf.egptr + chunk.length) = chunk := by
  have behind := window_storeAll empty.le room
  rw [empty, window_self, List.nil_append] at behind
  rw [empty]
  exact behind

theorem current_spec {input : Input} (some_unread : input.buf.gptr < input.buf.egptr)
    (inside : input.buf.egptr ≤ input.buf.read.length) :
    ∃ value, input.remaining = value :: input.bump.remaining ∧ input.buf.current = toIntType value := by
  obtain ⟨value, entry, first⟩ := window_cons some_unread inside
  refine ⟨value, congrArg (· ++ input.incoming) first, ?_⟩
  unfold PipeBuf.current
  rw [entry]
  rfl

theorem Sound.inside {input : Input} (sound : input.Sound) : input.buf.egptr ≤ input.buf.read.length :=
  Nat.le_trans sound.area.upper (Nat.sub_le _ _)

/-- A chunk that is read into an empty get area is what comes next. -/
theorem grow_store_spec {input : Input} {res : Nat} (sound : input.Sound) (empty : input.buf.gptr = input.buf.egptr)
    (some_read : 1 ≤ res) (fits : (res : Int) ≤ input.len) (available : res ≤ input.incoming.length) :
    ((input.store res).grow res).Sound ∧ ((input.store res).grow res).remaining = input.incoming ∧
      ((input.store res).grow res).buf.current = front input.incoming ∧
      ((input.store res).grow res).buf.gptr < ((input.store res).grow res).buf.egptr := by
  have size := sound.size
  have limit : input.buf.back = input.buf.read.length - 1 := rfl
  unfold len at fits
  have taken : (input.incoming.take res).length = res := by
    rw [List.length_take]
    omega
  have stored := unread_chunk empty (show input.buf.egptr + (input.incoming.take res).length ≤ input.buf.read.length by omega)
  rw [taken] at stored
  have kept : (storeAll input.buf.read input.buf.egptr (input.incoming.take res)).length = input.buf.read.length :=
    storeAll_length _ _ _
  have whole : ((input.store res).grow res).remaining = input.incoming := by
    change window (storeAll input.buf.read input.buf.egptr (input.incoming.take res)) input.buf.gptr (input.buf.egptr + res) ++
      input.incoming.drop res = _
    rw [stored, List.take_append_drop]
  have sound' : ((input.store res).grow res).Sound := by
    refine ⟨sound.isOpen, kept.trans size, sound.base, ⟨sound.area.lower, ?_, ?_⟩, ?_⟩
    · exact (by omega : input.buf.gptr ≤ input.buf.egptr + res)
    · change input.buf.egptr + res ≤ (storeAll input.buf.read input.buf.egptr (input.incoming.take res)).length - 1
      omega
    · intro len member
      rcases List.mem_append.mp member with before | here
      · exact sound.positive len before
      · rw [List.mem_singleton.mp here]
        exact (by omega : (0 : Int) < input.buf.back - input.buf.egptr)
  have filled : ((input.store res).grow res).buf.gptr < ((input.store res).grow res).buf.egptr :=
    (by omega : input.buf.gptr < input.buf.egptr + res)
  obtain ⟨value, split, current⟩ := current_spec filled sound'.inside
  refine ⟨sound', whole, ?_, filled⟩
  rw [← whole, split]
  exact current

/-- With nothing unread, underflow returns the next character and leaves it unread. -/
theorem underflow_spec {input next : Input} {calls : List (Except Errno Nat)} {result : Int} (sound : input.Sound)
    (empty : input.buf.gptr = input.buf.egptr) (returned : input.underflow calls = some (result, next)) :
    next.Sound ∧ next.remaining = input.remaining ∧ next.results = input.results ∧ result = front input.remaining ∧
      (result ≠ eof → next.buf.gptr < next.buf.egptr) := by
  obtain ⟨sound', empty', room⟩ := sound.rewind empty
  have unread : input.remaining = input.incoming := by
    unfold remaining PipeBuf.unread
    rw [empty, window_self, List.nil_append]
  unfold underflow at returned
  rw [if_neg (by rw [sound.isOpen]; exact Bool.noConfusion)] at returned
  generalize input.buf.rewind = buf at sound' empty' room returned
  obtain ⟨⟨res, filled⟩, asked, same⟩ := Option.map_eq_some_iff.mp returned
  obtain ⟨answers, rfl⟩ := read_cases asked
  dsimp only at same
  rcases answers with ⟨rfl, ends⟩ | ⟨some_read, fits, available⟩
  · have positive : (0 : Int) < buf.back - buf.egptr := by omega
    have ended : input.incoming = [] := ends.resolve_right (Int.not_le.mpr positive)
    cases same
    rw [unread, ended]
    refine ⟨⟨sound'.isOpen, sound'.size, sound'.base, sound'.area, ?_⟩, ?_, rfl, rfl, fun char => absurd rfl char⟩
    · intro len member
      rcases List.mem_append.mp member with before | here
      · exact sound.positive len before
      · rw [List.mem_singleton.mp here]
        exact positive
    · have nothing : window buf.read buf.gptr buf.egptr = [] := by
        rw [empty', window_self]
      change window buf.read buf.gptr buf.egptr ++ [] = []
      rw [nothing]
      rfl
  · rw [if_neg (Nat.ne_of_gt some_read)] at same
    obtain ⟨kept, whole, current, filled⟩ := grow_store_spec sound' empty' some_read fits available
    cases same
    rw [unread]
    exact ⟨kept, whole, rfl, current, fun _ => filled⟩

theorem sound_bump {input : Input} (sound : input.Sound) (some_unread : input.buf.gptr < input.buf.egptr) : input.bump.Sound :=
  ⟨sound.isOpen, sound.size, sound.base, ⟨Nat.le_succ_of_le sound.area.lower, some_unread, sound.area.upper⟩, sound.positive⟩

theorem step_spec {input next : Input} {call : InputCall} {calls : List (Except Errno Nat)} (sound : input.Sound)
    (taken : input.step (call, calls) = some next) :
    next.Sound ∧ next.results = input.results ++ [front input.remaining] ∧
      next.remaining = if call = .sgetc then input.remaining else input.remaining.tail := by
  cases call with
  | sgetc =>
    obtain ⟨⟨result, got⟩, returned, rfl⟩ := Option.map_eq_some_iff.mp taken
    unfold sgetc at returned
    split at returned
    · rename_i some_unread
      obtain ⟨value, split, current⟩ := current_spec some_unread sound.inside
      cases returned
      rw [split, current]
      exact ⟨⟨sound.isOpen, sound.size, sound.base, sound.area, sound.positive⟩, rfl, split⟩
    · rename_i all_read
      have empty := Nat.le_antisymm sound.area.middle (Nat.le_of_not_lt all_read)
      obtain ⟨kept, same, log, rfl, -⟩ := underflow_spec sound empty returned
      rw [← same]
      refine ⟨⟨kept.isOpen, kept.size, kept.base, kept.area, kept.positive⟩, ?_, rfl⟩
      rw [← log, same]
      rfl
  | sbumpc =>
    obtain ⟨⟨result, got⟩, returned, rfl⟩ := Option.map_eq_some_iff.mp taken
    unfold sbumpc at returned
    split at returned
    · rename_i some_unread
      obtain ⟨value, split, current⟩ := current_spec some_unread sound.inside
      have bumped := sound_bump sound some_unread
      cases returned
      rw [split, current]
      exact ⟨⟨bumped.isOpen, bumped.size, bumped.base, bumped.area, bumped.positive⟩, rfl, rfl⟩
    · rename_i all_read
      have empty := Nat.le_antisymm sound.area.middle (Nat.le_of_not_lt all_read)
      obtain ⟨⟨char, filled⟩, read, outcome⟩ := Option.map_eq_some_iff.mp returned
      obtain ⟨kept, same, log, result, chars⟩ := underflow_spec sound empty read
      dsimp only at outcome
      split at outcome
      · rename_i ended
        cases outcome
        have nothing : input.remaining = [] := by
          cases stream : input.remaining with
          | nil => rfl
          | cons value rest =>
            rw [stream, ended] at result
            exact absurd result.symm (toIntType_ne_eof value)
        rw [nothing] at same ⊢
        exact ⟨⟨kept.isOpen, kept.size, kept.base, kept.area, kept.positive⟩, congrArg (· ++ [eof]) log, same⟩
      · rename_i delivered
        obtain ⟨value, split, -⟩ := current_spec (chars delivered) kept.inside
        have bumped := sound_bump kept (chars delivered)
        cases outcome
        rw [same] at split
        rw [← result, split]
        exact ⟨⟨bumped.isOpen, bumped.size, bumped.base, bumped.area, bumped.positive⟩, congrArg (· ++ [_]) log, rfl⟩

/-- A run of calls delivers the stream that its first state holds. -/
theorem run_spec {input final : Input} {calls : List (InputCall × List (Except Errno Nat))} (sound : input.Sound)
    (reached : run step input calls = some final) :
    final.Sound ∧ final.results = input.results ++ expected input.remaining (calls.map Prod.fst) := by
  induction calls generalizing input with
  | nil =>
    cases reached
    exact ⟨sound, (List.append_nil _).symm⟩
  | cons label rest ih =>
    obtain ⟨next, taken, reached⟩ := run_cons.mp reached
    obtain ⟨kept, log, left⟩ := step_spec sound taken
    obtain ⟨ends, results⟩ := ih kept reached
    refine ⟨ends, ?_⟩
    rw [results, log, left, List.append_assoc]
    obtain ⟨call, attempts⟩ := label
    cases call <;> rfl

/-- The calls return the incoming bytes in order, each of them until it is bumped and eof
behind the last one, however read(2) cuts them; the pointers stay ordered inside the buffer
and no read is for nothing. -/
theorem results_eq_expected (pipe : BasicPipe) (incoming : List UInt8) (calls : List (InputCall × List (Except Errno Nat)))
    (final : Input) (isOpen : pipe.isOpen = true) (reached : run step (start pipe incoming) calls = some final) :
    final.results = expected incoming (calls.map Prod.fst) ∧ final.buf.GetArea ∧ ∀ len ∈ final.asked, 0 < len := by
  obtain ⟨sound, results⟩ := run_spec (sound_start isOpen incoming) reached
  rw [remaining_start] at results
  exact ⟨results, sound.area, sound.positive⟩

/-- The input after underflow has read so many bytes. -/
def fetched (input : Input) (res : Nat) : Input := (({ input with buf := input.buf.rewind } : Input).store res).grow res

theorem step_fetched {input : Input} {calls : List (Except Errno Nat)} {res : Nat} (isOpen : input.buf.pipe.isOpen = true)
    (empty : input.buf.gptr = input.buf.egptr) (got : retry calls = some (.ok res)) (some_read : res ≠ 0)
    (answers : Answers input.incoming (input.buf.rewind.back - input.buf.rewind.egptr) res) :
    step input (.sgetc, calls) = some (record ((input.fetched res).buf.current, input.fetched res)) := by
  have read : ({ input with buf := input.buf.rewind } : Input).read calls =
      some (res, ({ input with buf := input.buf.rewind } : Input).store res) := by
    rw [Input.read, got]
    exact if_pos answers
  rw [step, sgetc, if_neg (by omega), underflow, if_neg (by simp [isOpen]), read, Option.map_some, Option.map_some]
  exact congrArg (fun result => some (record result)) (if_neg some_read)

theorem fetched_length (input : Input) (res : Nat) : (input.fetched res).buf.read.length = input.buf.read.length := by
  have kept : input.buf.rewind.read = input.buf.read := by
    unfold PipeBuf.rewind
    split <;> rfl
  exact (storeAll_length ..).trans (congrArg List.length kept)

/-- The input after sbumpc has taken so many unread characters. -/
def drained (input : Input) (count : Nat) : Input :=
  { input with
    buf := { input.buf with gptr := input.buf.gptr + count }
    results := input.results ++ (input.buf.unread.take count).map toIntType }

/-- Unread characters are taken without a read. -/
theorem run_drained {input : Input} {count : Nat} (enough : input.buf.gptr + count ≤ input.buf.egptr)
    (inside : input.buf.egptr ≤ input.buf.read.length) :
    run step input (List.replicate count (.sbumpc, [])) = some (input.drained count) := by
  induction count generalizing input with
  | zero =>
    rw [drained, List.take_zero, List.map_nil, List.append_nil]
    rfl
  | succ count ih =>
    have left : input.buf.gptr < input.buf.egptr := by omega
    obtain ⟨value, entry, first⟩ := window_cons left inside
    have current : input.buf.current = toIntType value := by
      rw [PipeBuf.current, entry]
      rfl
    have bumped : step input (.sbumpc, []) = some (record (input.buf.current, input.bump)) := by
      rw [step, sbumpc, if_pos left]
      rfl
    have rest := @ih (record (input.buf.current, input.bump)) (show input.buf.gptr + 1 + count ≤ input.buf.egptr by omega) inside
    rw [List.replicate_succ, run_cons]
    refine ⟨_, bumped, rest.trans ?_⟩
    simp only [drained, record, bump, PipeBuf.unread, current, first, List.take_succ_cons, List.map_cons, List.append_assoc,
      List.singleton_append, Nat.add_right_comm _ 1 count, Nat.add_assoc]

/-- The first chunk fills the buffer, and the second one, behind an interrupted read, goes to its offset 10. -/
def filled : List (InputCall × List (Except Errno Nat)) :=
  (.sgetc, [.ok 895]) :: (List.replicate 895 (.sbumpc, []) ++ [(.sgetc, [.error .EINTR, .ok 1])])

def longText : List UInt8 := List.replicate 895 97 ++ [98]

theorem filled_first : ∃ first, step (start ⟨3, 4⟩ longText) (.sgetc, [.ok 895]) = some first ∧
    first.buf.pipe.isOpen = true ∧ first.buf.gptr = 128 ∧ first.buf.egptr = 1023 ∧
    first.buf.read.length = defaultBufferSize ∧ first.asked = [895] ∧ first.incoming = [98] := by
  have kept : (start ⟨3, 4⟩ longText).buf.rewind = (start ⟨3, 4⟩ longText).buf := if_neg (by decide +kernel)
  have size : (start ⟨3, 4⟩ longText).buf.read.length = defaultBufferSize := List.length_replicate
  refine ⟨_, step_fetched rfl rfl rfl (by decide) (by decide +kernel), ?_, ?_, ?_, ?_, ?_, ?_⟩
  · simp only [record, fetched, store, grow, PipeBuf.setg, kept]
    rfl
  · simp only [record, fetched, store, grow, PipeBuf.setg, kept]
    rfl
  · simp only [record, fetched, store, grow, PipeBuf.setg, kept]
    rfl
  · exact (fetched_length (start ⟨3, 4⟩ longText) 895).trans size
  · simp only [record, fetched, store, grow, len, PipeBuf.back, kept, size]
    rfl
  · decide +kernel

theorem results_eq_expected_filled :
    ∃ final, run step (start ⟨3, 4⟩ longText) filled = some final ∧ final.asked = [895, 1013] ∧
      final.buf.gptr = 10 ∧ final.results.drop 896 = [98] ∧ final.buf.GetArea := by
  obtain ⟨first, begins, isOpen, gptr, egptr, size, asked, incoming⟩ := filled_first
  have drains : run step first (List.replicate 895 (.sbumpc, [])) = some (first.drained 895) :=
    run_drained (by omega) (by rw [size, egptr]; decide)
  have whole : first.buf.back = 1023 := congrArg (· - 1) size
  have rewound : (first.drained 895).buf.rewind = (first.drained 895).buf.setg 0 10 10 := if_pos (egptr.trans whole.symm)
  have asks : (first.drained 895).buf.rewind.back = 1023 ∧ (first.drained 895).buf.rewind.egptr = 10 := by
    rw [rewound]
    exact ⟨whole, rfl⟩
  have ends := @step_fetched (first.drained 895) [.error .EINTR, .ok 1] 1 isOpen (by simp only [drained]; omega) rfl (by decide)
    (by rw [asks.1, asks.2, show (first.drained 895).incoming = [98] from incoming]; decide)
  have reached : run step (start ⟨3, 4⟩ longText) filled = some _ :=
    run_cons.mpr ⟨first, begins, run_append drains (run_cons.mpr ⟨_, ends, rfl⟩)⟩
  obtain ⟨results, area, -⟩ := results_eq_expected ⟨3, 4⟩ longText filled _ rfl reached
  refine ⟨_, reached, ?_, ?_, ?_, area⟩
  · change first.asked ++ [((first.drained 895).buf.rewind.back : Int) - (first.drained 895).buf.rewind.egptr] = _
    rw [asked, asks.1, asks.2]
    rfl
  · simp only [record, fetched, store, grow, rewound]
    rfl
  · rw [results]
    decide +kernel

end Input
end BoostProcess.V1
