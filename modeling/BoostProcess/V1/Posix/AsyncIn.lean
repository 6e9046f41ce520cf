import BoostProcess.Library.Channel
import BoostProcess.Library.Transition
import BoostProcess.V2.ErrorCode

/-! async_in with a future: what is written to the input of a child, from the fork to the value of the future.

This process is 0. It keeps its end to write to until the last byte is in the pipe, and every program that it launches
meanwhile has that end too. SIGPIPE is ignored.
-/

set_option autoImplicit false

namespace BoostProcess.V1.Posix.AsyncIn

open BoostProcess.V2 (Errno)
open Transition

inductive Phase where
  /-- From `on_setup` to the async_write of `on_success`, or to `on_error`. -/
  | setUp
  | writing
  | done
  | failed
  deriving DecidableEq, Repr

structure World extends Channel.Family UInt8 where
  phase : Phase := .setUp
  /-- What async_write has still to write. -/
  rest : List UInt8
  sourceOpen : Bool := true
  promise : Option (Except Int Unit) := none

/-- The errors that the handler does not report. -/
def forgiven : List Int := [Errno.EBADF.code, Errno.EPERM.code, Errno.ENOENT.code]

/-- What the handler of async_write sets the promise to. -/
def handler (ec : Int) : Except Int Unit := if ec ≠ 0 ∧ ec ∉ forgiven then .error ec else .ok ()

namespace World

/-- A process forks, this one or another one. -/
def fork (world : World) (parent : Nat) (related : Bool) : World := { world with toFamily := world.toFamily.fork parent related }

/-- `pipe_` of `on_success` or of the handler goes, and is the last owner of the pipe if the other one has gone. -/
def dropPipe (world : World) (last : Bool) : World :=
  if last then { world with toFamily := world.toFamily.closeSink } else world

/-- The handler is called. -/
def complete (world : World) (ec : Int) : World :=
  World.dropPipe { world with phase := .done, promise := some (handler ec) } !world.sourceOpen

end World

inductive Op where
  /-- A launch of this process: the one of the initializer or another one. -/
  | launch (own : Bool)
  | fork (parent : Nat)
  /-- Another process does something else with its descriptors. -/
  | act (op : Channel.Op Nat UInt8)
  | onSuccess
  /-- `std::move(*pipe_).source().close()`, behind which `on_success` ends. -/
  | closeSource
  | onError
  | write (count : Nat)
  /-- All has been written. -/
  | writeDone
  | writeError (ec : Int)
  deriving DecidableEq, Repr

/-- `on_exec_setup`: a dup2 behind which both ends are closed. -/
def onExecSetup (child : Nat) : List Op :=
  [.act (.dupReader child), .act (.closeReader child), .act (.closeWriter child)]

def step (world : World) : Op → Option World
  | .launch own => if own = true → world.phase = .setUp ∧ world.kin = [] then some (world.fork 0 own) else none
  | .fork parent => if parent ≠ 0 then some (world.fork parent (decide (parent ∈ world.kin))) else none
  | .act op =>
    if op.actor ≠ 0 ∧ ¬ op.Forks then
      (world.channel.step op).map fun channel => { world with toFamily := { world.toFamily with channel := channel } }
    else none
  | .onSuccess => if world.phase = .setUp ∧ world.kin ≠ [] then some { world with phase := .writing } else none
  | .closeSource =>
    if world.phase ≠ .setUp ∧ world.sourceOpen = true then
      some (World.dropPipe { world with sourceOpen := false, channel := world.channel.closeReader 0 } (world.phase = .done))
    else none
  | .onError =>
    -- the pipe itself goes with the initializer
    if world.phase = .setUp then
      some (World.dropPipe { world with phase := .failed, sourceOpen := false, channel := world.channel.closeReader 0 } true)
    else none
  | .write count =>
    if world.phase = .writing ∧ 0 < count ∧ count ≤ world.rest.length ∧ world.channel.readers ≠ [] then
      some { world with channel := world.channel.send (world.rest.take count), rest := world.rest.drop count }
    else none
  | .writeDone => if world.phase = .writing ∧ world.rest = [] then some (world.complete 0) else none
  | .writeError ec => if world.phase = .writing ∧ world.rest ≠ [] ∧ ec ≠ 0 then some (world.complete ec) else none

variable {world next final : World} {op : Op} {ops : List Op} {buf : List UInt8}

section Dropped

variable (world : World) (last : Bool)

@[simp] theorem channel_dropPipe : (world.dropPipe last).channel.content = world.channel.content ∧
    (world.dropPipe last).channel.sent = world.channel.sent ∧
      (world.dropPipe last).channel.received = world.channel.received := by
  cases last <;> exact ⟨rfl, rfl, rfl⟩

@[simp] theorem rest_dropPipe : (world.dropPipe last).rest = world.rest := by
  cases last <;> rfl

@[simp] theorem phase_dropPipe : (world.dropPipe last).phase = world.phase := by
  cases last <;> rfl

@[simp] theorem promise_dropPipe : (world.dropPipe last).promise = world.promise := by
  cases last <;> rfl

@[simp] theorem sourceOpen_dropPipe : (world.dropPipe last).sourceOpen = world.sourceOpen := by
  cases last <;> rfl

@[simp] theorem related_dropPipe : (world.dropPipe last).Related ↔ world.Related := by
  cases last <;> rfl

end Dropped

/-! ## What gets into the pipe -/

/-- No other process writes to the pipe. -/
def Sole (_ : World) : Op → Prop
  | .act op => ¬ op.Sends
  | _ => True

/-- The write does not end with an error that the handler does not report. -/
def Reported (_ : World) : Op → Prop
  | .writeError ec => ec ∉ forgiven
  | _ => True

instance (world : World) (op : Op) : Decidable (Sole world op) := by
  cases op <;> first | exact inferInstanceAs (Decidable (¬ _)) | exact isTrue trivial

instance (world : World) (op : Op) : Decidable (Reported world op) := by
  cases op <;> first | exact inferInstanceAs (Decidable (¬ _)) | exact isTrue trivial

/-- What a step does to the bytes and to the promise. -/
inductive Effect (world next : World) (op : Op) : Prop
  | still (sent : next.channel.sent = world.channel.sent) (rest : next.rest = world.rest) (promise : next.promise = world.promise)
      (phase : next.phase = .done ↔ world.phase = .done) (sole : Sole world op) (reported : Reported world op)
  | meddled (holder : Nat) (bytes : List UInt8) (asked : op = .act (.send holder bytes)) (some' : bytes ≠ [])
      (sent : next.channel.sent = world.channel.sent ++ bytes) (rest : next.rest = world.rest)
      (promise : next.promise = world.promise)
      (phase : next.phase = world.phase)
  | wrote (bytes : List UInt8) (writing : world.phase = .writing) (phase : next.phase = .writing)
      (sent : next.channel.sent = world.channel.sent ++ bytes) (rest : world.rest = bytes ++ next.rest)
      (promise : next.promise = world.promise) (sole : Sole world op) (reported : Reported world op)
  | completed (ec : Int) (writing : world.phase = .writing) (phase : next.phase = .done)
      (sent : next.channel.sent = world.channel.sent) (rest : next.rest = world.rest) (promise : next.promise = some (handler ec))
      (cause : ec = 0 ∧ world.rest = [] ∧ op = .writeDone ∨ ec ≠ 0 ∧ world.rest ≠ [] ∧ op = .writeError ec) (sole : Sole world op)

theorem effect_of_step (taken : step world op = some next) : Effect world next op := by
  cases op with
  | launch own =>
    simp only [step] at taken
    obtain ⟨-, ⟨⟩⟩ := Option.ite_none_right_eq_some.mp taken
    exact .still rfl rfl rfl Iff.rfl trivial trivial
  | fork parent =>
    simp only [step] at taken
    obtain ⟨-, ⟨⟩⟩ := Option.ite_none_right_eq_some.mp taken
    exact .still rfl rfl rfl Iff.rfl trivial trivial
  | act op =>
    simp only [step] at taken
    obtain ⟨-, taken⟩ := Option.ite_none_right_eq_some.mp taken
    obtain ⟨channel, moved, rfl⟩ := Option.map_eq_some_iff.mp taken
    cases Channel.transfer_of_step moved with
    | still quiet same => exact .still same.sent rfl rfl Iff.rfl quiet.1 trivial
    | send holder bytes same _ _ some' after =>
      subst same
      subst after
      exact .meddled holder bytes rfl some' rfl rfl rfl rfl
    | receive holder count same _ _ _ after =>
      subst same
      subst after
      exact .still rfl rfl rfl Iff.rfl id trivial
  | onSuccess =>
    simp only [step] at taken
    obtain ⟨⟨setUp, -⟩, ⟨⟩⟩ := Option.ite_none_right_eq_some.mp taken
    exact .still rfl rfl rfl (iff_of_false nofun fun done => nomatch setUp.symm.trans done) trivial trivial
  | closeSource =>
    simp only [step] at taken
    obtain ⟨-, ⟨⟩⟩ := Option.ite_none_right_eq_some.mp taken
    exact .still (channel_dropPipe _ _).2.1 (rest_dropPipe _ _) (promise_dropPipe _ _) (by rw [phase_dropPipe]) trivial trivial
  | onError =>
    simp only [step] at taken
    obtain ⟨setUp, ⟨⟩⟩ := Option.ite_none_right_eq_some.mp taken
    exact .still rfl rfl rfl (iff_of_false nofun fun done => nomatch setUp.symm.trans done) trivial trivial
  | write count =>
    simp only [step] at taken
    obtain ⟨⟨writing, -⟩, ⟨⟩⟩ := Option.ite_none_right_eq_some.mp taken
    exact .wrote _ writing writing rfl (List.take_append_drop count world.rest).symm rfl trivial trivial
  | writeDone =>
    simp only [step] at taken
    obtain ⟨⟨writing, written⟩, ⟨⟩⟩ := Option.ite_none_right_eq_some.mp taken
    exact .completed 0 writing (phase_dropPipe _ _) (channel_dropPipe _ _).2.1 (rest_dropPipe _ _) (promise_dropPipe _ _)
      (.inl ⟨rfl, written, rfl⟩) trivial
  | writeError ec =>
    simp only [step] at taken
    obtain ⟨⟨writing, unwritten, error⟩, ⟨⟩⟩ := Option.ite_none_right_eq_some.mp taken
    exact .completed ec writing (phase_dropPipe _ _) (channel_dropPipe _ _).2.1 (rest_dropPipe _ _) (promise_dropPipe _ _)
      (.inr ⟨error, unwritten, rfl⟩) trivial

/-- This process or others have written, and what this process has still to write makes up the buffer unless others have. -/
structure Sound (buf : List UInt8) (world : World) : Prop where
  ordered : world.channel.Ordered
  whole : world.channel.sent ++ world.rest = buf ∨ buf.length < world.channel.sent.length + world.rest.length
  finished : world.promise ≠ none ↔ world.phase = .done

theorem ordered_of_step (ordered : world.channel.Ordered) (taken : step world op = some next) : next.channel.Ordered := by
  have dropped {world : World} {last : Bool} (ordered : world.channel.Ordered) : (world.dropPipe last).channel.Ordered := by
    obtain ⟨content, sent, received⟩ := channel_dropPipe world last
    unfold Channel.Ordered
    rw [content, sent, received]
    exact ordered
  cases op with
  | act op =>
    simp only [step] at taken
    obtain ⟨-, taken⟩ := Option.ite_none_right_eq_some.mp taken
    obtain ⟨channel, moved, rfl⟩ := Option.map_eq_some_iff.mp taken
    exact ordered.step moved
  | write count =>
    simp only [step] at taken
    obtain ⟨-, ⟨⟩⟩ := Option.ite_none_right_eq_some.mp taken
    exact ordered.send _
  | launch own =>
    simp only [step] at taken
    obtain ⟨-, ⟨⟩⟩ := Option.ite_none_right_eq_some.mp taken
    exact ordered
  | fork parent =>
    simp only [step] at taken
    obtain ⟨-, ⟨⟩⟩ := Option.ite_none_right_eq_some.mp taken
    exact ordered
  | onSuccess =>
    simp only [step] at taken
    obtain ⟨-, ⟨⟩⟩ := Option.ite_none_right_eq_some.mp taken
    exact ordered
  | _ =>
    simp only [step] at taken
    obtain ⟨-, ⟨⟩⟩ := Option.ite_none_right_eq_some.mp taken
    exact dropped ordered

theorem step_sound : Preserves step (fun _ _ => True) (Sound buf) := by
  intro world op next sound _ taken
  refine ⟨ordered_of_step sound.ordered taken, ?_, ?_⟩
  · cases effect_of_step taken with
    | still sent rest =>
      rw [sent, rest]
      exact sound.whole
    | meddled holder bytes _ some' sent rest =>
      have positive := List.length_pos_iff.mpr some'
      right
      rw [sent, rest, List.length_append]
      cases sound.whole with
      | inl whole =>
        rw [← whole, List.length_append]
        omega
      | inr longer => omega
    | wrote bytes _ _ sent rest =>
      have whole := sound.whole
      rw [rest, List.length_append] at whole
      rw [sent, List.append_assoc, List.length_append]
      exact whole.imp_right fun longer => by omega
    | completed ec _ _ sent rest =>
      rw [sent, rest]
      exact sound.whole
  · cases effect_of_step taken with
    | still _ _ promise phase => exact promise ▸ sound.finished.trans phase.symm
    | meddled _ _ _ _ _ _ promise phase => exact promise ▸ phase ▸ sound.finished
    | wrote _ writing phase _ _ promise =>
      rw [promise, sound.finished, writing, phase]
    | completed ec _ phase _ _ promise => exact iff_of_true (promise ▸ Option.some_ne_none _) phase

theorem sound_start (buf : List UInt8) : Sound buf { rest := buf } where
  ordered := rfl
  whole := .inl rfl
  finished := iff_of_false (absurd rfl) nofun

theorem whole_iff_sole (reached : run step { rest := buf } ops = some final) :
    final.channel.sent ++ final.rest = buf ↔ Admits step Sole { rest := buf } ops := by
  refine @last_iff_admits_of_sound World Op step Sole (Sound buf) (fun world => world.channel.sent ++ world.rest = buf)
    step_sound ?_ ?_
    { rest := buf } final ops (sound_start buf) rfl reached
  · intro world op next sound whole taken
    cases effect_of_step taken with
    | still sent rest _ _ sole => exact iff_of_true (by rw [sent, rest, whole]) sole
    | meddled holder bytes asked some' sent rest =>
      subst asked
      refine iff_of_false (fun equal => some' ?_) fun sole => sole trivial
      have lengths := congrArg List.length (equal.trans whole.symm)
      rw [sent, rest] at lengths
      simpa using lengths
    | wrote bytes _ _ sent rest _ sole => exact iff_of_true (by rw [sent, List.append_assoc, ← rest, whole]) sole
    | completed ec _ _ sent rest _ _ sole => exact iff_of_true (by rw [sent, rest, whole]) sole
  · intro world op next sound lost taken whole
    have longer := sound.whole.resolve_left lost
    have lengths := congrArg List.length whole
    rw [List.length_append] at lengths
    cases effect_of_step taken with
    | still sent rest => exact lost (by rw [← sent, ← rest, whole])
    | meddled holder bytes _ _ sent rest =>
      rw [sent, rest, List.length_append] at lengths
      omega
    | wrote bytes _ _ sent rest => exact lost (by rw [rest, ← List.append_assoc, ← sent, whole])
    | completed ec _ _ sent rest => exact lost (by rw [← sent, ← rest, whole])

theorem handler_eq_ok {ec : Int} : handler ec = .ok () ↔ ec = 0 ∨ ec ∈ forgiven := by
  unfold handler
  split
  · rename_i error
    exact iff_of_false nofun (not_or.mpr error)
  · rename_i other
    exact iff_of_true rfl (by simpa [or_iff_not_imp_left] using other)

/-- A value stands for all that was to be written. -/
def Meant (world : World) : Prop := world.promise = some (.ok ()) → world.rest = []

theorem meant_iff_reported (reached : run step { rest := buf } ops = some final) :
    Meant final ↔ Admits step Reported { rest := buf } ops := by
  refine @last_iff_admits_of_sound World Op step Reported (Sound buf)
    Meant step_sound ?_ ?_ { rest := buf } final ops (sound_start buf)
    nofun reached
  · intro world op next sound meant taken
    unfold Meant
    cases effect_of_step taken with
    | still _ rest promise _ _ reported => exact iff_of_true (by rw [rest, promise]; exact meant) reported
    | meddled _ _ asked _ _ rest promise =>
      subst asked
      exact iff_of_true (by rw [rest, promise]; exact meant) trivial
    | wrote _ writing _ _ _ promise _ reported =>
      refine iff_of_true (fun ready => ?_) reported
      rw [promise] at ready
      have done := sound.finished.mp (ready ▸ Option.some_ne_none _)
      exact nomatch writing.symm.trans done
    | completed ec _ _ _ rest promise cause =>
      rw [promise, rest, Option.some_inj, handler_eq_ok]
      obtain ⟨-, written, rfl⟩ | ⟨error, unwritten, rfl⟩ := cause
      · exact iff_of_true (fun _ => written) trivial
      · constructor
        · exact fun stands known => unwritten (stands (.inr known))
        · exact fun other known => absurd (known.resolve_left error) other
  · intro world op next sound lost taken meant
    obtain ⟨ready, unwritten⟩ := Classical.not_imp.mp lost
    have done := sound.finished.mp (ready ▸ Option.some_ne_none _)
    cases effect_of_step taken with
    | still _ rest promise => exact unwritten (rest ▸ meant (promise.trans ready))
    | meddled _ _ _ _ _ rest promise => exact unwritten (rest ▸ meant (promise.trans ready))
    | wrote _ writing => exact nomatch writing.symm.trans done
    | completed _ writing => exact nomatch writing.symm.trans done

/-- If only this process writes and the future has a value, all was written exactly if the write did not end with one of the
errors that the handler does not report. At the end of the file the readers have what was written, in order. -/
theorem stdin_of_run (final : World) (buf : List UInt8) (ops : List Op) (reached : run step { rest := buf } ops = some final)
    (sole : Admits step Sole { rest := buf } ops) (ready : final.promise = some (.ok ())) :
    (final.channel.sent = buf ↔ Admits step Reported { rest := buf } ops) ∧
      (final.channel.AtEnd → final.channel.received = final.channel.sent) := by
  have sound := run_invariant step_sound (sound_start buf) admits_true reached
  have whole := (whole_iff_sole reached).mpr sole
  refine ⟨?_, sound.ordered.atEnd⟩
  rw [← meant_iff_reported reached]
  unfold Meant
  rw [forall_prop_of_true ready, ← whole]
  exact List.self_eq_append_right

/-- Two writes, between which the child reads. -/
def twoWrites : List Op :=
  .launch true :: onExecSetup 1 ++
    [.onSuccess, .write 1, .closeSource, .act (.receive 1 1), .write 1, .writeDone, .act (.receive 1 1)]

theorem stdin_of_run_twoWrites :
    ∃ final, run step { rest := [104, 105] } twoWrites = some final ∧ final.channel.sent = [104, 105] ∧
    final.channel.AtEnd ∧ final.channel.received = final.channel.sent := by
  have stdin := stdin_of_run _ [104, 105] twoWrites rfl (by decide) rfl
  exact ⟨_, rfl, stdin.1.mpr (by decide), ⟨rfl, rfl⟩, stdin.2 ⟨rfl, rfl⟩⟩

/-- The future has a value although nothing has been written. -/
example : (run step { rest := [104, 105] } [.launch true, .onSuccess, .writeError 9]).map
  (fun world => (world.promise.isSome, world.rest)) =
    some (true, [104, 105]) := by rfl

/-! ## Who can hold off the end of the input -/

/-- No other program is launched until all has been written. -/
def Timely (world : World) : Op → Prop
  | .launch own => own = true ∨ world.sinkOpen = false
  | _ => True

instance (world : World) (op : Op) : Decidable (Timely world op) := by
  cases op <;> first | exact inferInstanceAs (Decidable (_ ∨ _)) | exact isTrue trivial

/-- The end to write to goes when the handler has been called and `on_success` has ended. -/
structure Known (world : World) : Prop extends world.toFamily.Known where
  owned : world.sinkOpen = true ∨ world.sourceOpen = false ∧ world.phase ≠ .writing
  setUp : world.phase = .setUp → world.sourceOpen = true
  released : world.phase = .done → world.sourceOpen = false → world.sinkOpen = false

theorem known_dropPipe (known : world.toFamily.Known) (last : Bool) (opened : last = true → world.sinkOpen = true) :
    (world.dropPipe last).toFamily.Known := by
  cases last with
  | false => exact known
  | true => exact known.closeSink (opened rfl)

theorem owned_dropPipe (last : Bool) (opened : world.sinkOpen = true)
    (lost : last = true → world.sourceOpen = false ∧ world.phase ≠ .writing) :
    (world.dropPipe last).sinkOpen = true ∨ (world.dropPipe last).sourceOpen = false ∧
      (world.dropPipe last).phase ≠ .writing := by
  cases last with
  | false => exact .inl opened
  | true => exact .inr (lost rfl)

theorem known_complete (known : Known world) (writing : world.phase = .writing) (ec : Int) : Known (world.complete ec) := by
  have opened : world.sinkOpen = true := known.owned.resolve_right fun lost => lost.2 writing
  have kept : ({ world with phase := .done, promise := some (handler ec) } : World).toFamily.Known := known.toKnown
  refine ⟨known_dropPipe kept _ fun _ => opened, owned_dropPipe _ opened fun last => ?_, fun setUp => ?_, fun _ source => ?_⟩
  · exact ⟨by simpa using last, nofun⟩
  · exact nomatch (phase_dropPipe _ _).symm.trans setUp
  · unfold World.complete at source ⊢
    rw [sourceOpen_dropPipe] at source
    have closed : world.sourceOpen = false := source
    rw [closed]
    rfl

theorem step_known : Preserves step (fun _ _ => True) Known := by
  intro world op next known _ taken
  cases op with
  | launch own =>
    simp only [step] at taken
    obtain ⟨-, ⟨⟩⟩ := Option.ite_none_right_eq_some.mp taken
    exact ⟨known.fork 0 own, known.owned, known.setUp, known.released⟩
  | fork parent =>
    simp only [step] at taken
    obtain ⟨-, ⟨⟩⟩ := Option.ite_none_right_eq_some.mp taken
    exact ⟨known.fork parent _, known.owned, known.setUp, known.released⟩
  | act op =>
    simp only [step] at taken
    obtain ⟨⟨other, single⟩, taken⟩ := Option.ite_none_right_eq_some.mp taken
    obtain ⟨channel, moved, rfl⟩ := Option.map_eq_some_iff.mp taken
    exact ⟨known.act moved other single, known.owned, known.setUp, known.released⟩
  | onSuccess =>
    simp only [step] at taken
    obtain ⟨⟨setUp, -⟩, ⟨⟩⟩ := Option.ite_none_right_eq_some.mp taken
    have opened : world.sinkOpen = true := known.owned.resolve_right fun lost => nomatch lost.1.symm.trans (known.setUp setUp)
    exact ⟨known.toKnown, .inl opened, nofun, nofun⟩
  | closeSource =>
    simp only [step] at taken
    obtain ⟨⟨later, source⟩, ⟨⟩⟩ := Option.ite_none_right_eq_some.mp taken
    have opened : world.sinkOpen = true := known.owned.resolve_right fun lost => nomatch lost.1.symm.trans source
    have kept : ({ world with sourceOpen := false, channel := world.channel.closeReader 0 } : World).toFamily.Known :=
      ⟨known.sink, known.writers, known.born, known.heirs, known.kin⟩
    refine ⟨known_dropPipe kept _ fun _ => opened, ?_, fun setUp =>
      absurd ((phase_dropPipe _ _).symm.trans setUp) later, fun done _ => ?_⟩
    · refine owned_dropPipe _ opened fun last => ⟨rfl, fun writing => ?_⟩
      exact nomatch (of_decide_eq_true last).symm.trans writing
    · rw [decide_eq_true ((phase_dropPipe _ _).symm.trans done)]
      rfl
  | onError =>
    simp only [step] at taken
    obtain ⟨setUp, ⟨⟩⟩ := Option.ite_none_right_eq_some.mp taken
    have opened : world.sinkOpen = true := known.owned.resolve_right fun lost => nomatch lost.1.symm.trans (known.setUp setUp)
    have kept :
        ({ world with phase := .failed, sourceOpen := false, channel := world.channel.closeReader 0 } : World).toFamily.Known :=
      ⟨known.sink, known.writers, known.born, known.heirs, known.kin⟩
    exact ⟨known_dropPipe kept true fun _ => opened, owned_dropPipe true opened fun _ => ⟨rfl, nofun⟩, nofun, nofun⟩
  | write count =>
    simp only [step] at taken
    obtain ⟨-, ⟨⟩⟩ := Option.ite_none_right_eq_some.mp taken
    exact ⟨⟨known.sink, known.writers, known.born, known.heirs, known.kin⟩, known.owned, known.setUp, known.released⟩
  | writeDone =>
    simp only [step] at taken
    obtain ⟨⟨writing, -⟩, ⟨⟩⟩ := Option.ite_none_right_eq_some.mp taken
    exact known_complete known writing 0
  | writeError ec =>
    simp only [step] at taken
    obtain ⟨⟨writing, -⟩, ⟨⟩⟩ := Option.ite_none_right_eq_some.mp taken
    exact known_complete known writing ec

theorem related_step (known : Known world) (taken : step world op = some next) :
    next.Related ↔ world.Related ∧ (world.Related → Timely world op) := by
  cases op with
  | launch own =>
    simp only [step] at taken
    obtain ⟨-, ⟨⟩⟩ := Option.ite_none_right_eq_some.mp taken
    refine (Channel.Family.related_launch known.toKnown own).trans ?_
    exact and_congr_right fun all => ⟨fun timely _ => timely, fun timely => timely all⟩
  | fork parent =>
    simp only [step] at taken
    obtain ⟨other, ⟨⟩⟩ := Option.ite_none_right_eq_some.mp taken
    exact (Channel.Family.related_descend known.toKnown other).trans (and_iff_left fun _ => trivial).symm
  | act op =>
    simp only [step] at taken
    obtain ⟨-, taken⟩ := Option.ite_none_right_eq_some.mp taken
    obtain ⟨channel, -, rfl⟩ := Option.map_eq_some_iff.mp taken
    exact (and_iff_left fun _ => trivial).symm
  | onSuccess =>
    simp only [step] at taken
    obtain ⟨-, ⟨⟩⟩ := Option.ite_none_right_eq_some.mp taken
    exact (and_iff_left fun _ => trivial).symm
  | write count =>
    simp only [step] at taken
    obtain ⟨-, ⟨⟩⟩ := Option.ite_none_right_eq_some.mp taken
    exact (and_iff_left fun _ => trivial).symm
  | _ =>
    simp only [step] at taken
    obtain ⟨-, ⟨⟩⟩ := Option.ite_none_right_eq_some.mp taken
    exact (related_dropPipe _ _).trans (and_iff_left fun _ => trivial).symm

theorem start_known (buf : List UInt8) : Known { rest := buf } := ⟨Channel.Family.known_start, .inl rfl, fun _ => rfl, nofun⟩

/-- Only the child and its descendants ever get an end to write to exactly if no other program is launched before the write has
ended. Otherwise the child waits for the end of its input until the other program has gone, too. -/
theorem input_ends_iff_timely (final : World) (buf : List UInt8) (ops : List Op)
    (reached : run step { rest := buf } ops = some final) :
    (final.Related ↔ Admits step Timely { rest := buf } ops) ∧
      (Admits step Timely { rest := buf } ops → final.phase = .done → final.sourceOpen = false →
        (∀ heir ∈ final.kin, heir ∉ final.channel.writers) → final.channel.writers = []) := by
  have known := run_invariant step_known (start_known buf) admits_true reached
  have related : final.Related ↔ Admits step Timely { rest := buf } ops := by
    refine @last_iff_admits_of_sound World Op step Timely Known (fun world => world.Related)
      step_known ?_ ?_ { rest := buf } final ops
      (start_known buf) nofun reached
    · intro world op next known all taken
      rw [related_step known taken, and_iff_right all, forall_prop_of_true all]
    · intro world op next known lost taken all
      exact lost ((related_step known taken).mp all).1
  refine ⟨related, fun admitted done source => ?_⟩
  exact Channel.Family.writers_of_related known.toKnown (related.mpr admitted) (known.released done source)

theorem input_ends_iff_timely_twoWrites : ∃ final, run step { rest := [104, 105] } twoWrites = some final ∧ final.Related :=
  ⟨_, rfl, (input_ends_iff_timely _ [104, 105] twoWrites rfl).1.mpr (by decide)⟩

/-- A program launched while the input is being written keeps the child from seeing its end. -/
example : (run step { rest := [104] }
  [.launch true, .onSuccess, .closeSource, .launch false, .write 1, .writeDone, .act (.closeWriter 1)]).map
    (fun world => world.channel.writers) = some [2] := by rfl

end BoostProcess.V1.Posix.AsyncIn
