import BoostProcess.Library.Channel
import BoostProcess.Library.Transition
import BoostProcess.V2.ErrorCode

/-! async_out with a future: the output of a child, from the fork to the value of the future.

This process is 0. Its pipe is not close-on-exec, so every program that is launched while an end is open has that
end too. asio reads as long as there is something to read.
-/

set_option autoImplicit false

namespace BoostProcess.V1.Posix.AsyncOut

open BoostProcess.V2 (Errno)
open Transition

inductive Phase where
  /-- From `on_setup` to the async_read of `on_success`, or to `on_error`. -/
  | setUp
  | reading
  | done
  | failed
  deriving DecidableEq, Repr

structure World extends Channel.Family UInt8 where
  phase : Phase := .setUp
  /-- The streambuf -/
  buffer : List UInt8 := []
  promise : Option (Except Int (List UInt8)) := none

/-- `boost::asio::error::eof` -/
def eof : Int := 2

/-- What the handler of async_read sets the promise to. -/
def handler (buffer : List UInt8) (ec : Int) : Except Int (List UInt8) :=
  if ec ≠ 0 ∧ ec ≠ Errno.ENOENT.code then .error ec else .ok buffer

namespace World

/-- A process forks, this one or another one. -/
def fork (world : World) (parent : Nat) (related : Bool) : World := { world with toFamily := world.toFamily.fork parent related }

/-- `pipe_` of `on_success` or of the handler goes, and is the last owner of the pipe if the other one has gone. -/
def dropPipe (world : World) (last : Bool) : World :=
  if last then { world with channel := world.channel.closeReader 0 } else world

/-- The handler is called. -/
def complete (world : World) (ec : Int) : World :=
  World.dropPipe { world with phase := .done, promise := some (handler world.buffer ec) } !world.sinkOpen

end World

inductive Op where
  /-- A launch of this process: the one of the initializer or another one. -/
  | launch (own : Bool)
  | fork (parent : Nat)
  /-- Another process does something else with its descriptors. -/
  | act (op : Channel.Op Nat UInt8)
  | onSuccess
  /-- `std::move(*pipe_).sink().close()`, behind which `on_success` ends. -/
  | closeSink
  | onError
  | read (count : Nat)
  | readEof
  | readError (ec : Int)
  deriving DecidableEq, Repr

/-- `on_exec_setup`: a dup2 for each target, behind which both ends are closed. -/
def onExecSetup (child targets : Nat) : List Op :=
  List.replicate targets (.act (.dupWriter child)) ++ [.act (.closeWriter child), .act (.closeReader child)]

def step (world : World) : Op → Option World
  | .launch own => if own = true → world.phase = .setUp ∧ world.kin = [] then some (world.fork 0 own) else none
  | .fork parent => if parent ≠ 0 then some (world.fork parent (decide (parent ∈ world.kin))) else none
  | .act op =>
    if op.actor ≠ 0 ∧ ¬ op.Forks then
      (world.channel.step op).map fun channel => { world with toFamily := { world.toFamily with channel := channel } }
    else none
  | .onSuccess => if world.phase = .setUp ∧ world.kin ≠ [] then some { world with phase := .reading } else none
  | .closeSink =>
    if world.phase ≠ .setUp ∧ world.sinkOpen = true then
      some (World.dropPipe { world with toFamily := world.toFamily.closeSink } (world.phase = .done))
    else none
  | .onError =>
    -- the pipe itself goes with the initializer
    if world.phase = .setUp then
      some (World.dropPipe { world with phase := .failed, toFamily := world.toFamily.closeSink } true)
    else none
  | .read count =>
    if world.phase = .reading ∧ 0 < count ∧ count ≤ world.channel.content.length then
      some { world with channel := world.channel.receive count, buffer := world.buffer ++ world.channel.content.take count }
    else none
  | .readEof => if world.phase = .reading ∧ world.channel.AtEnd then some (world.complete eof) else none
  | .readError ec => if world.phase = .reading ∧ ec ≠ 0 ∧ ec ≠ Errno.ENOENT.code then some (world.complete ec) else none

variable {world next final : World} {op : Op} {ops : List Op}

/-! ## What the pipe goes through -/

def dropOps (last : Bool) : List (Channel.Op Nat UInt8) := if last then [.closeReader 0] else []

theorem run_dropOps (world : World) (last : Bool) :
    run Channel.step world.channel (dropOps last) = some (world.dropPipe last).channel := by
  cases last <;> rfl

@[simp] theorem phase_dropPipe (world : World) (last : Bool) : (world.dropPipe last).phase = world.phase := by
  cases last <;> rfl

@[simp] theorem buffer_dropPipe (world : World) (last : Bool) : (world.dropPipe last).buffer = world.buffer := by
  cases last <;> rfl

@[simp] theorem promise_dropPipe (world : World) (last : Bool) : (world.dropPipe last).promise = world.promise := by
  cases last <;> rfl

@[simp] theorem received_dropPipe (world : World) (last : Bool) :
    (world.dropPipe last).channel.received = world.channel.received := by
  cases last <;> rfl

@[simp] theorem content_dropPipe (world : World) (last : Bool) :
    (world.dropPipe last).channel.content = world.channel.content := by
  cases last <;> rfl

@[simp] theorem atEnd_dropPipe (world : World) (last : Bool) : (world.dropPipe last).channel.AtEnd ↔ world.channel.AtEnd := by
  cases last <;> rfl

theorem known_dropPipe (known : world.toFamily.Known) (last : Bool) : (world.dropPipe last).toFamily.Known := by
  cases last with
  | false => exact known
  | true => exact ⟨known.sink, known.writers, known.born, known.heirs, known.kin⟩

theorem known_complete (known : world.toFamily.Known) (ec : Int) : (world.complete ec).toFamily.Known :=
  @known_dropPipe { world with phase := .done, promise := some (handler world.buffer ec) } known _

theorem phase_complete (world : World) (ec : Int) : (world.complete ec).phase = .done := phase_dropPipe _ _

@[simp] theorem related_dropPipe (world : World) (last : Bool) : (world.dropPipe last).Related ↔ world.Related := by
  cases last <;> rfl

def channelOps (world : World) : Op → List (Channel.Op Nat UInt8)
  | .launch _ => [.fork 0 world.born]
  | .fork parent => [.fork parent world.born]
  | .act op => [op]
  | .onSuccess => []
  | .closeSink => .closeWriter 0 :: dropOps (world.phase = .done)
  | .onError => [.closeWriter 0, .closeReader 0]
  | .read count => [.receive 0 count]
  | .readEof => dropOps !world.sinkOpen
  | .readError _ => dropOps !world.sinkOpen

/-- This process keeps its end to read from until the handler has been called. -/
def Reads (world : World) : Prop := world.phase = .setUp ∨ world.phase = .reading → 0 ∈ world.channel.readers

theorem channel_of_step (reads : Reads world) (taken : step world op = some next) :
    run Channel.step world.channel (channelOps world op) = some next.channel := by
  cases op with
  | launch own =>
    simp only [step] at taken
    obtain ⟨-, ⟨⟩⟩ := Option.ite_none_right_eq_some.mp taken
    rfl
  | fork parent =>
    simp only [step] at taken
    obtain ⟨-, ⟨⟩⟩ := Option.ite_none_right_eq_some.mp taken
    rfl
  | act op =>
    simp only [step] at taken
    obtain ⟨-, taken⟩ := Option.ite_none_right_eq_some.mp taken
    obtain ⟨channel, moved, rfl⟩ := Option.map_eq_some_iff.mp taken
    exact run_cons.mpr ⟨channel, moved, rfl⟩
  | onSuccess =>
    simp only [step] at taken
    obtain ⟨-, ⟨⟩⟩ := Option.ite_none_right_eq_some.mp taken
    rfl
  | closeSink =>
    simp only [step] at taken
    obtain ⟨-, ⟨⟩⟩ := Option.ite_none_right_eq_some.mp taken
    exact run_cons.mpr ⟨_, rfl, run_dropOps { world with toFamily := world.toFamily.closeSink } _⟩
  | onError =>
    simp only [step] at taken
    obtain ⟨-, ⟨⟩⟩ := Option.ite_none_right_eq_some.mp taken
    rfl
  | read count =>
    simp only [step] at taken
    obtain ⟨⟨reading, positive, there⟩, ⟨⟩⟩ := Option.ite_none_right_eq_some.mp taken
    exact run_cons.mpr ⟨_, if_pos ⟨reads (.inr reading), positive, there⟩, rfl⟩
  | readEof =>
    simp only [step] at taken
    obtain ⟨-, ⟨⟩⟩ := Option.ite_none_right_eq_some.mp taken
    exact run_dropOps { world with phase := .done, promise := some (handler world.buffer eof) } _
  | readError ec =>
    simp only [step] at taken
    obtain ⟨-, ⟨⟩⟩ := Option.ite_none_right_eq_some.mp taken
    exact run_dropOps { world with phase := .done, promise := some (handler world.buffer ec) } _

theorem reads_of_step (reads : Reads world) (taken : step world op = some next) : Reads next := by
  cases op with
  | launch own =>
    simp only [step] at taken
    obtain ⟨-, ⟨⟩⟩ := Option.ite_none_right_eq_some.mp taken
    exact fun early => List.mem_append_right _ (reads early)
  | fork parent =>
    simp only [step] at taken
    obtain ⟨-, ⟨⟩⟩ := Option.ite_none_right_eq_some.mp taken
    exact fun early => List.mem_append_right _ (reads early)
  | act op =>
    simp only [step] at taken
    obtain ⟨⟨other, -⟩, taken⟩ := Option.ite_none_right_eq_some.mp taken
    obtain ⟨channel, moved, rfl⟩ := Option.map_eq_some_iff.mp taken
    exact fun early => Channel.reader_of_step moved (reads early) other
  | onSuccess =>
    simp only [step] at taken
    obtain ⟨⟨setUp, -⟩, ⟨⟩⟩ := Option.ite_none_right_eq_some.mp taken
    exact fun _ => reads (.inl setUp)
  | closeSink =>
    simp only [step] at taken
    obtain ⟨-, ⟨⟩⟩ := Option.ite_none_right_eq_some.mp taken
    cases done : decide (world.phase = .done) with
    | false => exact reads
    | true =>
      intro early
      have done : world.phase = .done := of_decide_eq_true done
      rw [phase_dropPipe, done] at early
      exact absurd early (by decide)
  | read count =>
    simp only [step] at taken
    obtain ⟨-, ⟨⟩⟩ := Option.ite_none_right_eq_some.mp taken
    exact reads
  | _ =>
    simp only [step] at taken
    obtain ⟨-, ⟨⟩⟩ := Option.ite_none_right_eq_some.mp taken
    intro early
    simp [World.complete] at early

/-! ## The value of the future -/

/-- No other process reads from the pipe. -/
def Alone (_ : World) : Op → Prop
  | .act op => ¬ op.Receives
  | _ => True

instance (world : World) (op : Op) : Decidable (Alone world op) := by
  cases op <;> first | exact inferInstanceAs (Decidable (¬ _)) | exact isTrue trivial

structure Sound (world : World) : Prop where
  reads : Reads world
  ordered : world.channel.Ordered
  /-- The streambuf has all that was read, unless another process has read, too. -/
  whole : world.buffer = world.channel.received ∨ world.buffer.length < world.channel.received.length
  early : world.promise ≠ none ↔ world.phase = .done
  settled : ∀ bytes, world.promise = some (.ok bytes) → world.channel.AtEnd ∧ bytes = world.buffer

theorem ordered_of_step (sound : Sound world) (taken : step world op = some next) : next.channel.Ordered := by
  have moved := channel_of_step sound.reads taken
  have preserved : Preserves Channel.step (fun _ _ => True) fun channel : Channel Nat UInt8 => channel.Ordered :=
    fun _ _ _ ordered _ taken => ordered.step taken
  exact run_invariant preserved sound.ordered admits_true moved

theorem atEnd_of_step (sound : Sound world) (finished : world.channel.AtEnd) (taken : step world op = some next) :
    next.channel.AtEnd := by
  have moved := channel_of_step sound.reads taken
  have preserved : Preserves Channel.step (fun _ _ => True) fun channel : Channel Nat UInt8 => channel.AtEnd :=
    fun _ _ _ finished _ taken => (finished.step taken).1
  exact run_invariant preserved finished admits_true moved

theorem handler_of_error {buffer : List UInt8} {ec : Int} (error : ec ≠ 0) (other : ec ≠ Errno.ENOENT.code) :
    handler buffer ec = .error ec :=
  if_pos ⟨error, other⟩

/-- The end of the file counts as no error, since its number is that of ENOENT. -/
theorem handler_eof (buffer : List UInt8) : handler buffer eof = .ok buffer := if_neg fun both => both.2 rfl

/-- What a step does to the streambuf and to the promise. -/
inductive Effect (world next : World) (op : Op) : Prop
  | still (same : next.buffer = world.buffer) (promise : next.promise = world.promise)
    (phase : next.phase = .done ↔ world.phase = .done)
      (received : next.channel.received = world.channel.received) (alone : Alone world op)
  | stolen (holder count : Nat) (asked : op = .act (.receive holder count)) (same : next.buffer = world.buffer)
      (promise : next.promise = world.promise) (phase : next.phase = world.phase)
      (received : world.channel.received.length < next.channel.received.length) (there : world.channel.content ≠ [])
  | read (bytes : List UInt8) (reading : world.phase = .reading) (phase : next.phase = .reading)
    (more : next.buffer = world.buffer ++ bytes)
      (received : next.channel.received = world.channel.received ++ bytes) (promise : next.promise = world.promise)
      (alone : Alone world op)
  | completed (reading : world.phase = .reading) (phase : next.phase = .done) (same : next.buffer = world.buffer)
      (received : next.channel.received = world.channel.received)
      (value : next.promise = some (.ok world.buffer) ∧ next.channel.AtEnd ∨ ∃ ec, next.promise = some (.error ec))
      (alone : Alone world op)

theorem effect_of_step (taken : step world op = some next) : Effect world next op := by
  cases op with
  | act op =>
    simp only [step] at taken
    obtain ⟨-, taken⟩ := Option.ite_none_right_eq_some.mp taken
    obtain ⟨channel, moved, rfl⟩ := Option.map_eq_some_iff.mp taken
    cases Channel.transfer_of_step moved with
    | still quiet same => exact .still rfl rfl Iff.rfl same.received quiet.2
    | send holder bytes same _ _ _ after =>
      subst same
      subst after
      exact .still rfl rfl Iff.rfl rfl id
    | receive holder count same _ positive there after =>
      subst same
      subst after
      have longer : 0 < (world.channel.content.take count).length := by
        rw [List.length_take]
        omega
      refine .stolen holder count rfl rfl rfl rfl ?_ (List.ne_nil_of_length_pos (by omega))
      unfold Channel.receive
      dsimp only
      rw [List.length_append]
      omega
  | read count =>
    simp only [step] at taken
    obtain ⟨⟨reading, -, -⟩, ⟨⟩⟩ := Option.ite_none_right_eq_some.mp taken
    exact .read _ reading reading rfl rfl rfl trivial
  | readEof =>
    simp only [step] at taken
    obtain ⟨⟨reading, finished⟩, ⟨⟩⟩ := Option.ite_none_right_eq_some.mp taken
    refine .completed reading (phase_dropPipe _ _) (buffer_dropPipe _ _) (received_dropPipe _ _) (.inl ⟨?_, ?_⟩) trivial
    · exact (promise_dropPipe _ _).trans (congrArg some (handler_eof world.buffer))
    · exact (atEnd_dropPipe _ _).mpr finished
  | readError ec =>
    simp only [step] at taken
    obtain ⟨⟨reading, error, other⟩, ⟨⟩⟩ := Option.ite_none_right_eq_some.mp taken
    refine .completed reading (phase_dropPipe _ _) (buffer_dropPipe _ _) (received_dropPipe _ _) (.inr ⟨ec, ?_⟩) trivial
    exact (promise_dropPipe _ _).trans (congrArg some (handler_of_error error other))
  | launch own =>
    simp only [step] at taken
    obtain ⟨-, ⟨⟩⟩ := Option.ite_none_right_eq_some.mp taken
    exact .still rfl rfl Iff.rfl rfl trivial
  | fork parent =>
    simp only [step] at taken
    obtain ⟨-, ⟨⟩⟩ := Option.ite_none_right_eq_some.mp taken
    exact .still rfl rfl Iff.rfl rfl trivial
  | closeSink =>
    simp only [step] at taken
    obtain ⟨-, ⟨⟩⟩ := Option.ite_none_right_eq_some.mp taken
    refine .still (buffer_dropPipe _ _) (promise_dropPipe _ _) ?_ (received_dropPipe _ _) trivial
    rw [phase_dropPipe]
  | onSuccess =>
    simp only [step] at taken
    obtain ⟨⟨setUp, -⟩, ⟨⟩⟩ := Option.ite_none_right_eq_some.mp taken
    exact .still rfl rfl (iff_of_false nofun fun done => nomatch setUp.symm.trans done) rfl trivial
  | onError =>
    simp only [step] at taken
    obtain ⟨setUp, ⟨⟩⟩ := Option.ite_none_right_eq_some.mp taken
    exact .still rfl rfl (iff_of_false nofun fun done => nomatch setUp.symm.trans done) rfl trivial

theorem step_sound : Preserves step (fun _ _ => True) Sound := by
  intro world op next sound _ taken
  have reads := reads_of_step sound.reads taken
  have ordered := ordered_of_step sound taken
  have finished (ready : world.channel.AtEnd) := atEnd_of_step sound ready taken
  cases effect_of_step taken with
  | still same promise phase received =>
    refine ⟨reads, ordered, ?_, promise ▸ sound.early.trans phase.symm, fun bytes ready => ?_⟩
    · rw [same, received]
      exact sound.whole
    · rw [promise] at ready
      obtain ⟨atEnd, rfl⟩ := sound.settled bytes ready
      exact ⟨finished atEnd, same.symm⟩
  | stolen holder count asked same promise phase received there =>
    refine ⟨reads, ordered, .inr ?_, promise ▸ phase ▸ sound.early, fun bytes ready => ?_⟩
    · rw [same]
      cases sound.whole with
      | inl whole => exact whole ▸ received
      | inr short => exact Nat.lt_trans short received
    · rw [promise] at ready
      exact absurd (sound.settled bytes ready).1.1 there
  | read bytes reading phase more received promise =>
    have open' : next.promise = none := by
      rw [promise]
      cases set : world.promise with
      | none => rfl
      | some value => exact nomatch reading.symm.trans (sound.early.mp (set ▸ Option.some_ne_none value))
    have unfinished : next.phase ≠ .done := by
      rw [phase]
      exact nofun
    refine ⟨reads, ordered, ?_, iff_of_false (absurd open') unfinished, fun bytes ready => nomatch open'.symm.trans ready⟩
    rw [more, received]
    cases sound.whole with
    | inl whole => exact .inl (by rw [whole])
    | inr short =>
      right
      rw [List.length_append, List.length_append]
      omega
  | completed reading phase same received value =>
    have set : next.promise ≠ none := by
      obtain ⟨set, -⟩ | ⟨_, set⟩ := value <;> exact set ▸ Option.some_ne_none _
    refine ⟨reads, ordered, ?_, iff_of_true set phase, fun bytes ready => ?_⟩
    · rw [same, received]
      exact sound.whole
    · obtain ⟨set, atEnd⟩ | ⟨ec, set⟩ := value
      · rw [set] at ready
        cases ready
        exact ⟨atEnd, same.symm⟩
      · rw [set] at ready
        cases ready

theorem sound_start : Sound {} where
  reads _ := List.mem_cons_self
  ordered := rfl
  whole := .inl rfl
  early := iff_of_false (absurd rfl) nofun
  settled _ := nofun

/-- The streambuf has all that was read exactly if no other process has read. -/
theorem whole_iff_alone (reached : run step {} ops = some final) :
    final.buffer = final.channel.received ↔ Admits step Alone {} ops := by
  refine @last_iff_admits_of_sound World Op step Alone Sound (fun world => world.buffer = world.channel.received)
    step_sound ?_ ?_ {} final
    ops sound_start rfl reached
  · intro world op next sound whole taken
    cases effect_of_step taken with
    | still same _ _ received alone => exact iff_of_true (by rw [same, received, whole]) alone
    | stolen holder count asked same _ _ received =>
      subst asked
      refine iff_of_false (fun equal => ?_) fun alone => alone trivial
      rw [← equal, same, whole] at received
      exact Nat.lt_irrefl _ received
    | read bytes _ _ more received _ alone => exact iff_of_true (by rw [more, received, whole]) alone
    | completed _ _ same received _ alone => exact iff_of_true (by rw [same, received, whole]) alone
  · intro world op next sound lost taken whole
    have short := sound.whole.resolve_left lost
    have next' := step_sound world op next sound trivial taken
    cases effect_of_step taken with
    | still same _ _ received => exact lost (by rw [← same, ← received, whole])
    | stolen holder count asked same _ _ received =>
      have equal := congrArg List.length whole
      rw [same] at equal
      omega
    | read bytes _ _ more received =>
      have equal := congrArg List.length whole
      rw [more, received, List.length_append, List.length_append] at equal
      omega
    | completed _ _ same received => exact lost (by rw [← same, ← received, whole])

/-- A value is set only behind the end of the file: everything that was written has been read, and no process can write
any more. It is all that was written exactly if no other process has read from the pipe. -/
theorem value_of_run (final : World) (ops : List Op) (reached : run step {} ops = some final) (bytes : List UInt8)
    (ready : final.promise = some (.ok bytes)) :
    final.channel.AtEnd ∧ (bytes = final.channel.sent ↔ Admits step Alone {} ops) := by
  have sound := run_invariant step_sound sound_start admits_true reached
  obtain ⟨finished, rfl⟩ := sound.settled bytes ready
  refine ⟨finished, ?_⟩
  rw [← sound.ordered.atEnd finished]
  exact whole_iff_alone reached

/-- A child that writes before and after the sink of this process is closed. -/
def twoWrites : List Op :=
  .launch true :: onExecSetup 1 1 ++
    [.onSuccess, .act (.send 1 [104]), .read 1, .closeSink, .act (.send 1 [105]), .act (.exit 1), .read 1, .readEof]

theorem value_of_run_twoWrites :
    ∃ final, run step {} twoWrites = some final ∧ final.promise = some (.ok [104, 105]) ∧ final.channel.AtEnd :=
  ⟨_, rfl, rfl, (value_of_run _ twoWrites rfl [104, 105] rfl).1⟩

/-! ## Who can hold off the future -/

/-- No other program is launched while this process has the end to write to. -/
def Timely (world : World) : Op → Prop
  | .launch own => own = true ∨ world.sinkOpen = false
  | _ => True

instance (world : World) (op : Op) : Decidable (Timely world op) := by
  cases op <;> first | exact inferInstanceAs (Decidable (_ ∨ _)) | exact isTrue trivial

structure Known (world : World) : Prop extends world.toFamily.Known where
  setUp : world.phase = .setUp → world.sinkOpen = true

theorem step_known : Preserves step (fun _ _ => True) Known := by
  intro world op next known _ taken
  cases op with
  | launch own =>
    simp only [step] at taken
    obtain ⟨-, ⟨⟩⟩ := Option.ite_none_right_eq_some.mp taken
    exact ⟨known.fork 0 own, known.setUp⟩
  | fork parent =>
    simp only [step] at taken
    obtain ⟨-, ⟨⟩⟩ := Option.ite_none_right_eq_some.mp taken
    exact ⟨known.fork parent _, known.setUp⟩
  | act op =>
    simp only [step] at taken
    obtain ⟨⟨other, single⟩, taken⟩ := Option.ite_none_right_eq_some.mp taken
    obtain ⟨channel, moved, rfl⟩ := Option.map_eq_some_iff.mp taken
    exact ⟨known.act moved other single, known.setUp⟩
  | onSuccess =>
    simp only [step] at taken
    obtain ⟨-, ⟨⟩⟩ := Option.ite_none_right_eq_some.mp taken
    exact ⟨known.toKnown, nofun⟩
  | closeSink =>
    simp only [step] at taken
    obtain ⟨⟨later, opened⟩, ⟨⟩⟩ := Option.ite_none_right_eq_some.mp taken
    refine ⟨known_dropPipe (known.closeSink opened) _, fun setUp => ?_⟩
    rw [phase_dropPipe] at setUp
    exact absurd setUp later
  | onError =>
    simp only [step] at taken
    obtain ⟨setUp, ⟨⟩⟩ := Option.ite_none_right_eq_some.mp taken
    exact ⟨known_dropPipe (known.closeSink (known.setUp setUp)) true, nofun⟩
  | read count =>
    simp only [step] at taken
    obtain ⟨-, ⟨⟩⟩ := Option.ite_none_right_eq_some.mp taken
    exact ⟨⟨known.sink, known.writers, known.born, known.heirs, known.kin⟩, known.setUp⟩
  | _ =>
    simp only [step] at taken
    obtain ⟨-, ⟨⟩⟩ := Option.ite_none_right_eq_some.mp taken
    exact ⟨known_complete known.toKnown _, fun setUp => nomatch (phase_complete world _).symm.trans setUp⟩

theorem related_step (known : Known world) (taken : step world op = some next) :
    next.Related ↔ world.Related ∧ (world.Related → Timely world op) := by
  cases op with
  | launch own =>
    simp only [step] at taken
    obtain ⟨-, ⟨⟩⟩ := Option.ite_none_right_eq_some.mp taken
    refine (Channel.Family.related_launch known.toKnown own).trans ?_
    exact and_congr_right fun all => ⟨fun timely _ => timely, fun timely => timely all⟩
  | fork parent =>
    simp only [step] at taken
    obtain ⟨other, ⟨⟩⟩ := Option.ite_none_right_eq_some.mp taken
    exact (Channel.Family.related_descend known.toKnown other).trans (and_iff_left fun _ => trivial).symm
  | act op =>
    simp only [step] at taken
    obtain ⟨-, taken⟩ := Option.ite_none_right_eq_some.mp taken
    obtain ⟨channel, -, rfl⟩ := Option.map_eq_some_iff.mp taken
    exact (and_iff_left fun _ => trivial).symm
  | onSuccess =>
    simp only [step] at taken
    obtain ⟨-, ⟨⟩⟩ := Option.ite_none_right_eq_some.mp taken
    exact (and_iff_left fun _ => trivial).symm
  | read count =>
    simp only [step] at taken
    obtain ⟨-, ⟨⟩⟩ := Option.ite_none_right_eq_some.mp taken
    exact (and_iff_left fun _ => trivial).symm
  | _ =>
    simp only [step] at taken
    obtain ⟨-, ⟨⟩⟩ := Option.ite_none_right_eq_some.mp taken
    exact (related_dropPipe _ _).trans (and_iff_left fun _ => trivial).symm

theorem start_known : Known {} := ⟨Channel.Family.known_start, fun _ => rfl⟩

/-- Only the child and its descendants ever get an end to write to exactly if no other program is launched while this process has
it. Then the end of the file waits for nobody else. -/
theorem related_iff_timely (final : World) (ops : List Op) (reached : run step {} ops = some final) :
    (final.Related ↔ Admits step Timely {} ops) ∧
      (Admits step Timely {} ops → final.sinkOpen = false → (∀ heir ∈ final.kin, heir ∉ final.channel.writers) →
        final.channel.writers = []) := by
  have known := run_invariant step_known start_known admits_true reached
  have related : final.Related ↔ Admits step Timely {} ops := by
    refine @last_iff_admits_of_sound World Op step Timely Known (fun world => world.Related)
      step_known ?_ ?_ {} final ops start_known nofun
      reached
    · intro world op next known all taken
      rw [related_step known taken, and_iff_right all, forall_prop_of_true all]
    · intro world op next known lost taken all
      exact lost ((related_step known taken).mp all).1
  exact ⟨related, fun admitted => Channel.Family.writers_of_related known.toKnown (related.mpr admitted)⟩

theorem related_iff_timely_twoWrites : ∃ final, run step {} twoWrites = some final ∧ final.Related :=
  ⟨_, rfl, (related_iff_timely _ twoWrites rfl).1.mpr (by decide)⟩

/-- A program that another thread launches meanwhile holds off the end of the file. -/
example : (run step {} [.launch true, .launch false, .onSuccess, .closeSink, .act (.exit 1)]).bind (step · .readEof) =
  none := by rfl

/-! ## The future gets ready -/

/-- asio completes a read. -/
def Completes : Op → Bool
  | .read _ => true
  | .readEof => true
  | .readError _ => true
  | _ => false

/-- A bound on the reads that are still to come, once nobody can write. -/
def rank (world : World) : Nat :=
  match world.phase with
  | .setUp => world.channel.content.length + 2
  | .reading => world.channel.content.length + 1
  | _ => 0

structure Drains (world next : World) (op : Op) : Prop where
  closed : next.channel.writers = []
  sent : next.channel.sent = world.channel.sent
  reading : world.phase = .reading ∨ world.phase = .done → next.phase = .reading ∨ next.phase = .done
  rank : rank next + (if Completes op then 1 else 0) ≤ rank world

theorem drains_of_step (sound : Sound world) (closed : world.channel.writers = []) (taken : step world op = some next) :
    Drains world next op := by
  have moved := channel_of_step sound.reads taken
  have preserved : Preserves Channel.step (fun _ _ => True) fun channel : Channel Nat UInt8 =>
      channel.writers = [] ∧ channel.sent = world.channel.sent :=
    fun _ _ _ ⟨gone, same⟩ _ taken => ⟨Channel.no_writer_of_step taken gone, (Channel.sent_of_step taken gone).trans same⟩
  obtain ⟨still, sent⟩ := run_invariant preserved ⟨closed, rfl⟩ admits_true moved
  cases op with
  | act op =>
    simp only [step] at taken
    obtain ⟨-, taken⟩ := Option.ite_none_right_eq_some.mp taken
    obtain ⟨channel, acted, rfl⟩ := Option.map_eq_some_iff.mp taken
    have shorter : channel.content.length ≤ world.channel.content.length := by
      cases Channel.transfer_of_step acted with
      | still _ same => exact Nat.le_of_eq (congrArg List.length same.content)
      | send holder _ _ here =>
        rw [closed] at here
        cases here
      | receive _ count _ _ _ _ after =>
        rw [after]
        exact (List.drop_sublist count world.channel.content).length_le
    refine ⟨still, sent, id, ?_⟩
    unfold rank Completes
    dsimp only
    split <;> simp <;> omega
  | read count =>
    simp only [step] at taken
    obtain ⟨⟨reading, positive, there⟩, ⟨⟩⟩ := Option.ite_none_right_eq_some.mp taken
    refine ⟨still, sent, id, ?_⟩
    have shorter : (world.channel.receive count).content.length + count = world.channel.content.length := by
      unfold Channel.receive
      dsimp only
      rw [List.length_drop]
      omega
    unfold rank Completes
    dsimp only
    rw [reading]
    simp
    omega
  | readEof =>
    simp only [step] at taken
    obtain ⟨⟨reading, -⟩, ⟨⟩⟩ := Option.ite_none_right_eq_some.mp taken
    refine ⟨still, sent, fun _ => .inr (phase_complete world _), ?_⟩
    unfold rank Completes
    rw [reading, phase_complete]
    simp
  | readError ec =>
    simp only [step] at taken
    obtain ⟨⟨reading, -⟩, ⟨⟩⟩ := Option.ite_none_right_eq_some.mp taken
    refine ⟨still, sent, fun _ => .inr (phase_complete world _), ?_⟩
    unfold rank Completes
    rw [reading, phase_complete]
    simp
  | onSuccess =>
    simp only [step] at taken
    obtain ⟨⟨setUp, -⟩, ⟨⟩⟩ := Option.ite_none_right_eq_some.mp taken
    refine ⟨still, sent, fun _ => .inl rfl, ?_⟩
    unfold rank Completes
    rw [setUp]
    simp
  | onError =>
    simp only [step] at taken
    obtain ⟨setUp, ⟨⟩⟩ := Option.ite_none_right_eq_some.mp taken
    refine ⟨still, sent, fun later => ?_, Nat.zero_le _⟩
    rw [setUp] at later
    exact absurd later (by decide)
  | closeSink =>
    simp only [step] at taken
    obtain ⟨-, ⟨⟩⟩ := Option.ite_none_right_eq_some.mp taken
    refine ⟨still, sent, fun early => by rwa [phase_dropPipe], ?_⟩
    unfold rank Completes
    rw [phase_dropPipe, content_dropPipe]
    exact Nat.le_refl _
  | _ =>
    simp only [step] at taken
    obtain ⟨-, ⟨⟩⟩ := Option.ite_none_right_eq_some.mp taken
    exact ⟨still, sent, id, Nat.le_refl _⟩

/-- While this process waits for the end of the file and nobody can write, asio can complete a read. -/
theorem completion_enabled (reading : world.phase = .reading) (closed : world.channel.writers = []) :
    ∃ op, Completes op = true ∧ (step world op).isSome = true := by
  by_cases empty : world.channel.content = []
  · exact ⟨.readEof, rfl, by simp [step, reading, Channel.AtEnd, empty, closed]⟩
  · exact ⟨.read world.channel.content.length, rfl, by simp [step, reading, List.length_pos_iff.mpr empty]⟩

/-- Once nobody can write any more, the future gets ready: there is always a read that asio can complete until then, and after
at most one for each byte and one for the end it is. -/
theorem ready_of_run (middle final : World) (ops more : List Op) (reached : run step {} ops = some middle)
    (reading : middle.phase = .reading) (closed : middle.channel.writers = []) (later : run step middle more = some final) :
    more.countP Completes ≤ middle.channel.content.length + 1 ∧
      (final.promise = none → ∃ op, Completes op = true ∧ (step final op).isSome = true) ∧
        final.channel.sent = middle.channel.sent := by
  have sound := run_invariant step_sound sound_start admits_true reached
  have drained : ∀ {before : World}, Sound before → before.channel.writers = [] → before.phase = .reading ∨ before.phase = .done →
      run step before more = some final → more.countP Completes + rank final ≤ rank before ∧ Sound final ∧
        final.channel.writers = [] ∧
        (final.phase = .reading ∨ final.phase = .done) ∧ final.channel.sent = before.channel.sent := by
    clear later
    induction more with
    | nil =>
      rintro before sound closed waits ⟨⟩
      exact ⟨Nat.le_of_eq (Nat.zero_add _), sound, closed, waits, rfl⟩
    | cons op more ih =>
      intro before sound closed waits later
      obtain ⟨next, taken, later⟩ := run_cons.mp later
      have drains := drains_of_step sound closed taken
      obtain ⟨bound, sound, closed, waits, sent⟩ :=
        ih (step_sound before op next sound trivial taken) drains.closed (drains.reading waits) later
      refine ⟨?_, sound, closed, waits, sent.trans drains.sent⟩
      have one := drains.rank
      rw [List.countP_cons]
      omega
  obtain ⟨bound, sound, closed, waits, sent⟩ := drained sound closed (.inl reading) later
  have start : rank middle = middle.channel.content.length + 1 := by
    unfold rank
    rw [reading]
  refine ⟨by omega, fun unset => ?_, sent⟩
  cases waits with
  | inl reading => exact completion_enabled reading closed
  | inr done => exact absurd unset (sound.early.mpr done)

def written : List Op :=
  .launch true :: onExecSetup 1 1 ++ [.onSuccess, .closeSink, .act (.send 1 [104, 105]), .act (.exit 1)]

theorem ready_of_run_written : ∃ middle final, run step {} written = some middle ∧
    run step middle [.read 1, .read 1, .readEof] = some final ∧ final.channel.sent = middle.channel.sent :=
  ⟨_, _, rfl, rfl, (ready_of_run _ _ written [.read 1, .read 1, .readEof] rfl rfl rfl rfl).2.2⟩

end BoostProcess.V1.Posix.AsyncOut
