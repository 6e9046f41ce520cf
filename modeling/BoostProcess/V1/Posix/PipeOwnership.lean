import BoostProcess.Library.Transition
import BoostProcess.V1.Posix.PipeMembers

/-! Ownership of the descriptors of pipes: each has one end of one pipe until it is closed, as long as
no pipe is assigned over an open one, no descriptor of a basic_pipe is put into an async_pipe, and the
reactor takes the descriptors of an async_pipe.
-/

set_option autoImplicit false

namespace BoostProcess.V1.Posix

open Transition

namespace PipeWorld

variable {world next : PipeWorld} {name source : Nat} {first second : Option Int}

/-! ## Runs -/

/-- The steps behind which every descriptor has one owner: no assignment goes over an open end, an
async_pipe is not copied while it is open and not made from an open basic_pipe, no dup fails behind
one that was made, and the reactor refuses no new descriptor. -/
def Careful (world : PipeWorld) : PipeOp → Prop
  | .pipe async _ fds assigns => fds ≠ none → async = true → assigns = .both
  | .named async _ readFd writeFd assigns => readFd ≠ none → writeFd ≠ none ∧ (async = true → assigns = .both)
  | .copyConstruct false _ source first second _ | .toBasic _ source first second =>
    ∀ rhs, world.pipes source = some rhs → NoOrphan rhs first second
  | .copyConstruct true _ source _ _ assigns => assigns = .both → ∀ p, world.pipes source = some p → p.isOpen = false
  | .copyAssign false name source first second _ =>
    ∀ self rhs, world.pipes name = some self → world.pipes source = some rhs → Vacant self rhs first second
  | .moveAssign false name _ => ∀ self, world.pipes name = some self → self.isOpen = false
  | .copyAssign true name source first second assigns =>
    ∀ self p, world.pipes name = some self → world.pipes source = some p → p.isOpen = true →
      NoOrphan p first second ∧
        (Dupped p first second →
          self.source = -1 ∧ assigns.source = true ∧ (p.sink ≠ -1 → self.sink = -1 ∧ assigns.sink = true))
  | .toAsync _ source assigns =>
    ∀ p, world.pipes source = some p → assigns.source = true → p.source = -1 ∧ (assigns.sink = true → p.sink = -1)
  | _ => True

theorem object_eq_some {async : Bool} {pipe : PipeObject} (there : world.object async name = some pipe) :
    world.pipes name = some pipe ∧ pipe.async = async := by
  unfold object at there
  rw [Option.filter_eq_some_iff] at there
  exact ⟨there.1, by simpa using there.2⟩

/-! ## Pipes with two new ends -/

/-- The end for the sink is vacant, also when the source has been put into the other one. -/
theorem vacant_sink (unused : world.pipes name = none) (source : Int) :
    Function.update world.ends (name, .source) source (name, .sink) = -1 := by
  rw [Function.update_of_ne (by simp)]
  exact ends_of_none unused .sink

theorem pipe_sound {async : Bool} {fds : Option (Int × Int)} {assigns : Assigns} (sound : world.Sound)
    (takes : fds ≠ none → async = true → assigns = .both) (unused : world.pipes name = none)
    (taken : world.construct (.pipe async name fds assigns) = some next) : next.Sound := by
  cases fds with
  | none =>
    cases taken
    exact sound
  | some fds =>
    obtain ⟨source, sink⟩ := fds
    simp only [construct] at taken
    split at taken
    · rename_i free
      cases taken
      rw [store_eq (takes (Option.some_ne_none _))]
      apply returns_sound
      have freeSink : Holdings.Free ((world.withEnds world.ends).acquire (name, .source) source) sink := by
        refine ⟨free.2.1.1, ?_⟩
        change Function.update world.fds source _ sink = none
        rw [Function.update_of_ne free.2.2.symm]
        exact free.2.1.2
      apply (Holdings.Sound.acquire sound (ends_of_none unused .source) free.1).acquire _ freeSink
      exact vacant_sink unused source
    · cases taken

theorem named_sound {async : Bool} {readFd writeFd : Option Int} {assigns : Assigns} (sound : world.Sound)
    (made : readFd ≠ none → writeFd ≠ none ∧ (async = true → assigns = .both)) (unused : world.pipes name = none)
    (taken : world.construct (.named async name readFd writeFd assigns) = some next) : next.Sound := by
  cases readFd with
  | none =>
    cases taken
    exact sound
  | some readFd =>
    simp only [construct] at taken
    split at taken
    · rename_i free
      obtain ⟨⟨middle, sink⟩, dupped, rfl⟩ := Option.map_eq_some_iff.mp taken
      have opened : ((world.openOwn readFd world.opened).withEnds
          (Function.update world.ends (name, .source) readFd)).Sound :=
        Holdings.Sound.acquire sound (ends_of_none unused .source) free
      have vacant := vacant_sink unused readFd
      have both := @dup_sound (world.openOwn readFd world.opened) middle _ _ _ _ (name, .sink) opened (fun _ => vacant)
        dupped
      rw [vacant] at both
      obtain ⟨made, takes⟩ := made (Option.some_ne_none _)
      have returned : sink ≠ some (-1) := mt (dup_failed dupped).mp fun failed => made failed.2
      dsimp only
      rw [if_neg returned, store_eq takes]
      apply returns_sound
      rw [ends_of_pipes (dup_pipes dupped)]
      exact both
    · cases taken

theorem fromHandles_sound {source sink : Int} (sound : world.Sound) (unused : world.pipes name = none)
    (taken : world.construct (.fromHandles name source sink) = some next) : next.Sound := by
  obtain ⟨middle, one, taken⟩ := Option.bind_eq_some_iff.mp taken
  obtain ⟨final, other, rfl⟩ := Option.map_eq_some_iff.mp taken
  obtain ⟨first, kept⟩ := takeOver_sound sound (ends_of_none unused .source) one
  obtain ⟨both, also⟩ := takeOver_sound first (vacant_sink unused source) other
  apply returns_sound
  rw [ends_of_pipes (also.trans kept)]
  exact both

theorem construct_sound {op : PipeOp} (sound : world.Sound) (careful : Careful world op)
    (new : constructed op = some name) (unused : world.pipes name = none) (taken : world.construct op = some next) :
    next.Sound := by
  cases op with
  | pipe =>
    cases new
    exact pipe_sound sound careful unused taken
  | named =>
    cases new
    exact named_sound sound careful unused taken
  | fromHandles =>
    cases new
    exact fromHandles_sound sound unused taken
  | copyConstruct async _ source first second assigns =>
    cases new
    obtain ⟨rhs, entry, taken⟩ := Option.bind_eq_some_iff.mp taken
    cases async with
    | true =>
      cases taken
      exact assignBoth_sound sound unused fun _ => ⟨rfl, fun _ => rfl⟩
    | false => exact copyBasic_sound sound unused (careful rhs (object_eq_some entry).1) taken
  | moveConstruct async _ source =>
    cases new
    obtain ⟨lhs, entry, rfl⟩ := Option.map_eq_some_iff.mp taken
    exact moveOut_sound sound (ends_of_none unused) (object_eq_some entry).1
  | toAsync _ source assigns =>
    cases new
    obtain ⟨p, entry, rfl⟩ := Option.map_eq_some_iff.mp taken
    exact assignBoth_sound sound unused (careful p (object_eq_some entry).1)
  | toBasic _ source first second =>
    cases new
    obtain ⟨p, entry, taken⟩ := Option.bind_eq_some_iff.mp taken
    exact copyBasic_sound sound unused (careful p (object_eq_some entry).1) taken
  | copyAssign => cases new
  | moveAssign => cases new
  | close => cases new
  | destroy => cases new
  | callerOpen => cases new
  | callerClose => cases new

theorem step_sound : Preserves step Careful Sound := by
  intro world op next sound careful taken
  unfold step at taken
  split at taken
  · rename_i name new
    split at taken
    · rename_i unused
      exact construct_sound sound careful new unused taken
    · cases taken
  · rename_i old
    cases op with
    | pipe => cases old
    | named => cases old
    | fromHandles => cases old
    | copyConstruct => cases old
    | moveConstruct => cases old
    | toAsync => cases old
    | toBasic => cases old
    | copyAssign async name source first second assigns =>
      obtain ⟨self, selfObject, taken⟩ := Option.bind_eq_some_iff.mp taken
      obtain ⟨rhs, object, taken⟩ := Option.bind_eq_some_iff.mp taken
      have selfEntry := (object_eq_some selfObject).1
      have entry := (object_eq_some object).1
      cases async with
      | false => exact copyAssignBasic_sound sound selfEntry (careful self rhs selfEntry entry) taken
      | true =>
        cases closed : rhs.isOpen with
        | false => exact copyAssignAsync_closed_sound sound selfEntry closed taken
        | true =>
          obtain ⟨complete, room⟩ := careful self rhs selfEntry entry closed
          exact copyAssignAsync_open_sound sound selfEntry complete room taken
    | moveAssign async name source =>
      obtain ⟨self, selfObject, taken⟩ := Option.bind_eq_some_iff.mp taken
      obtain ⟨lhs, object, rfl⟩ := Option.map_eq_some_iff.mp taken
      have selfEntry := (object_eq_some selfObject).1
      have entry := (object_eq_some object).1
      cases async with
      | false => exact moveOut_sound sound (vacant_of_closed selfEntry (careful self selfEntry)) entry
      | true =>
        exact exchange_sound sound (fun side => (ends_of_some entry side).symm) fun side => (ends_of_some selfEntry side).symm
    | close name =>
      obtain ⟨self, entry, rfl⟩ := Option.map_eq_some_iff.mp taken
      exact closePipe_sound sound entry
    | destroy name =>
      obtain ⟨self, entry, rfl⟩ := Option.map_eq_some_iff.mp taken
      exact destroy_sound sound entry
    | callerOpen number =>
      dsimp only at taken
      split at taken
      · rename_i free
        cases taken
        exact Holdings.Sound.openAt sound free
      · cases taken
    | callerClose number =>
      obtain ⟨inst, there, taken⟩ := Option.bind_eq_some_iff.mp taken
      split at taken
      · cases taken
      · rename_i foreign
        cases taken
        exact Holdings.Sound.closeForeign sound there foreign

/-! ## Copies -/

/-- An end of a copy is a new dup of an open end, or nothing. -/
def DupOf (before after : PipeWorld) (original copy : Int) : Prop :=
  original = -1 ∧ copy = -1 ∨
    ∃ inst dupped, original ≠ -1 ∧ before.fds original = some inst ∧ after.fds copy = some dupped ∧
      before.opened ≤ dupped ∧ after.file dupped = before.file inst

/-- The pipe that an operation makes a copy, and what it is a copy of. -/
def copies : PipeOp → Option (Nat × Nat)
  | .copyConstruct _ name source _ _ _ | .copyAssign _ name source _ _ _ | .toAsync name source _
  | .toBasic name source _ _ => some (name, source)
  | _ => none

theorem secured_of_some {pipe : PipeObject} (sound : world.Sound) (entry : world.pipes name = some pipe) (side : End) :
    pipe.fd side = -1 ∨ world.fds (pipe.fd side) ≠ none := by
  have secured := Holdings.Sound.secured sound (name, side)
  change world.ends (name, side) = -1 ∨ world.fds (world.ends (name, side)) ≠ none at secured
  rw [ends_of_some entry] at secured
  exact secured

/-- What is open stays so, and what it refers to. -/
theorem dup_stays {fd : Int} {result number : Option Int} (done : world.dup fd result = some (next, number)) {other : Int}
    {inst : Nat} (there : world.fds other = some inst) (old : inst < world.opened) :
    next.fds other = some inst ∧ next.file inst = world.file inst := by
  obtain ⟨-, -, rfl⟩ | ⟨-, -, -, rfl⟩ | ⟨given, dupped, -, -, -, -, free, rfl⟩ := dup_cases done
  · exact ⟨there, rfl⟩
  · exact ⟨there, rfl⟩
  · constructor
    · apply (Function.update_of_ne _ _ _).trans there
      rintro rfl
      rw [free.2] at there
      cases there
    · exact Function.update_of_ne (Nat.ne_of_lt old) _ _

theorem dup_opened {fd : Int} {result number : Option Int} (done : world.dup fd result = some (next, number)) :
    world.opened ≤ next.opened := by
  obtain ⟨-, -, rfl⟩ | ⟨-, -, -, rfl⟩ | ⟨given, inst, -, -, -, -, -, rfl⟩ := dup_cases done
  · exact Nat.le_refl _
  · exact Nat.le_refl _
  · exact Nat.le_succ _

theorem duplicate_dupOf {rhs : PipeObject} {left right : Option Int} (sound : world.Sound)
    (entry : world.pipes source = some rhs) (done : world.duplicate rhs first second = some (next, left, right))
    (returned : ¬ (left = some (-1) ∨ right = some (-1))) :
    DupOf world next rhs.source (left.getD (-1)) ∧ DupOf world next rhs.sink (right.getD (-1)) := by
  rw [not_or] at returned
  obtain ⟨-, thrown, -⟩ | ⟨middle, one, -, two⟩ := duplicate_cases done
  · exact absurd thrown returned.1
  constructor
  · obtain ⟨none, rfl, rfl⟩ | ⟨-, -, same, -⟩ | ⟨given, inst, some, -, rfl, there, free, rfl⟩ := dup_cases one
    · exact .inl ⟨none, rfl⟩
    · exact absurd same returned.1
    · -- the second dup does not touch the new one
      obtain ⟨dupped, file⟩ := dup_stays two (Function.update_self ..) (Nat.lt_succ_self _)
      exact .inr ⟨inst, world.opened, some, there, dupped, Nat.le_refl _, file.trans (Function.update_self ..)⟩
  · obtain ⟨none, rfl, rfl⟩ | ⟨-, -, same, -⟩ | ⟨given, inst, some, -, rfl, there, free, rfl⟩ := dup_cases two
    · exact .inl ⟨none, rfl⟩
    · exact absurd same returned.2
    · obtain ⟨old, present⟩ := Option.ne_none_iff_exists'.mp ((secured_of_some sound entry .sink).resolve_left some)
      obtain ⟨still, unchanged⟩ := dup_stays one present (Holdings.Sound.bounded sound _ old present).2
      cases still.symm.trans there
      exact .inr ⟨inst, middle.opened, some, present, Function.update_self .., dup_opened one,
        (Function.update_self ..).trans unchanged⟩

theorem returns_dupOf {rhs pipe : PipeObject} {left right : Option Int} (sound : world.Sound)
    (entry : world.pipes source = some rhs) (done : world.duplicate rhs first second = some (next, left, right))
    (returned : ¬ (left = some (-1) ∨ right = some (-1))) (sourceEnd : pipe.source = left.getD (-1))
    (sinkEnd : pipe.sink = right.getD (-1)) (side : End) :
    DupOf world (next.returns name (some pipe)) (world.ends (source, side))
      ((next.returns name (some pipe)).ends (name, side)) := by
  obtain ⟨one, two⟩ := duplicate_dupOf sound entry done returned
  have stored : (next.returns name (some pipe)).pipes name = some pipe := Function.update_self ..
  rw [ends_of_some entry, ends_of_some stored]
  cases side with
  | source =>
    change DupOf world _ rhs.source pipe.source
    rw [sourceEnd]
    exact one
  | sink =>
    change DupOf world _ rhs.sink pipe.sink
    rw [sinkEnd]
    exact two

theorem dupOf_of_closed {p pipe : PipeObject} (entry : world.pipes source = some p) (closed : p.isOpen = false)
    (noSource : pipe.source = -1) (noSink : pipe.sink = -1) (side : End) :
    DupOf world (world.returns name (some pipe)) (world.ends (source, side))
      ((world.returns name (some pipe)).ends (name, side)) := by
  have stored : (world.returns name (some pipe)).pipes name = some pipe := Function.update_self ..
  rw [vacant_of_closed entry closed, ends_of_some stored]
  cases side with
  | source => exact .inl ⟨rfl, noSource⟩
  | sink => exact .inl ⟨rfl, noSink⟩

theorem copyBasic_dupOf {rhs : PipeObject} (sound : world.Sound) (entry : world.pipes source = some rhs)
    (done : world.copyBasic name rhs first second = some next) (returned : next.threw = false) (side : End) :
    DupOf world next (world.ends (source, side)) (next.ends (name, side)) := by
  obtain ⟨⟨middle, left, right⟩, dupped, rfl⟩ := Option.map_eq_some_iff.mp done
  dsimp only at returned ⊢
  split at returned
  · cases returned
  · rename_i both
    rw [if_neg both]
    exact returns_dupOf sound entry dupped both rfl rfl side

theorem copyAssignBasic_dupOf {self rhs : PipeObject} (sound : world.Sound) (entry : world.pipes source = some rhs)
    (careful : Vacant self rhs first second) (done : world.copyAssignBasic name self rhs first second = some next)
    (returned : next.threw = false) (side : End) :
    DupOf world next (world.ends (source, side)) (next.ends (name, side)) := by
  obtain ⟨⟨middle, left, right⟩, dupped, rfl⟩ := Option.map_eq_some_iff.mp done
  dsimp only at returned ⊢
  split at returned
  · cases returned
  · rename_i both
    rw [if_neg both]
    have closed := careful.2.2 (dupped_of_returned dupped both)
    obtain ⟨noSource, noSink⟩ := BasicPipe.isOpen_eq_false.mp closed
    apply returns_dupOf sound entry dupped both
    · rw [noSource]
    · rw [noSink]

theorem copyAssignAsync_dupOf {assigns : Assigns} {self rhs : PipeObject} (sound : world.Sound)
    (entry : world.pipes source = some rhs) (done : world.copyAssignAsync name self rhs first second assigns = some next)
    (returned : next.threw = false) (side : End) :
    DupOf world next (world.ends (source, side)) (next.ends (name, side)) := by
  obtain ⟨⟨middle, left, right⟩, dupped, rfl⟩ := Option.map_eq_some_iff.mp done
  dsimp only at returned ⊢
  split at returned
  · cases returned
  · rename_i both
    rw [if_neg both]
    split at returned
    · cases returned
    · rename_i gotSource assigned
      split at returned
      · cases returned
      · rename_i gotSink also
        exact returns_dupOf sound entry dupped both (assign_eq_some assigned).2 (assign_eq_some also).2 side

/-- An async_pipe that was constructed has taken both ends. -/
theorem takes_of_returned {assigns : Assigns} {left right : Int}
    (returned : (world.assignBoth name assigns left right).threw = false) :
    assigns = .both ∧ world.assignBoth name assigns left right = world.returns name (some ⟨⟨left, right⟩, true⟩) := by
  obtain ⟨takes, also⟩ := assigns
  cases takes with
  | false => cases returned
  | true =>
    cases also with
    | false => cases returned
    | true => exact ⟨rfl, rfl⟩

/-- A careful step that makes a copy and does not throw dups what is open in the original. -/
theorem step_copies {op : PipeOp} (sound : world.Sound) (careful : Careful world op)
    (copy : copies op = some (name, source)) (taken : step world op = some next) (returned : next.threw = false)
    (side : End) : DupOf world next (world.ends (source, side)) (next.ends (name, side)) := by
  have constructs {body : Option PipeWorld} (taken : (if world.pipes name = none then body else none) = some next) :
      body = some next := by
    split at taken
    · exact taken
    · cases taken
  cases op with
  | copyConstruct async _ _ first second assigns =>
    cases copy
    obtain ⟨rhs, object, taken⟩ := Option.bind_eq_some_iff.mp (constructs taken)
    have entry := (object_eq_some object).1
    cases async with
    | false => exact copyBasic_dupOf sound entry taken returned side
    | true =>
      cases taken
      obtain ⟨takes, same⟩ := takes_of_returned returned
      unfold copyAsync
      rw [same]
      exact dupOf_of_closed entry (careful takes rhs entry) rfl rfl side
  | copyAssign async _ _ first second assigns =>
    cases copy
    obtain ⟨self, selfObject, taken⟩ := Option.bind_eq_some_iff.mp taken
    obtain ⟨rhs, object, taken⟩ := Option.bind_eq_some_iff.mp taken
    have selfEntry := (object_eq_some selfObject).1
    have entry := (object_eq_some object).1
    cases async with
    | false => exact copyAssignBasic_dupOf sound entry (careful self rhs selfEntry entry) taken returned side
    | true => exact copyAssignAsync_dupOf sound entry taken returned side
  | toAsync _ _ assigns =>
    cases copy
    obtain ⟨p, object, rfl⟩ := Option.map_eq_some_iff.mp (constructs taken)
    have entry := (object_eq_some object).1
    obtain ⟨rfl, same⟩ := takes_of_returned returned
    obtain ⟨noSource, noSink⟩ := careful p entry rfl
    unfold asyncFromBasic
    rw [same]
    have noSink := noSink rfl
    apply dupOf_of_closed entry (BasicPipe.isOpen_eq_false.mpr ⟨noSource, noSink⟩)
    · exact noSource
    · exact noSink
  | toBasic _ _ first second =>
    cases copy
    obtain ⟨p, object, taken⟩ := Option.bind_eq_some_iff.mp (constructs taken)
    exact copyBasic_dupOf sound (object_eq_some object).1 taken returned side
  | pipe => cases copy
  | named => cases copy
  | fromHandles => cases copy
  | moveConstruct => cases copy
  | moveAssign => cases copy
  | close => cases copy
  | destroy => cases copy
  | callerOpen => cases copy
  | callerClose => cases copy

/-- A process before its first pipe. -/
structure Initial (world : PipeWorld) : Prop where
  own : world.own = []
  closed : world.closed = []
  pipes : ∀ name, world.pipes name = none
  distinct : ∀ first second inst, world.fds first = some inst → world.fds second = some inst → first = second
  bounded : ∀ number inst, world.fds number = some inst → 0 ≤ number ∧ inst < world.opened

theorem Initial.sound (initial : world.Initial) : world.Sound := by
  have nothing (holder : Nat × End) : world.fds (world.ends holder) = none := by
    unfold ends
    rw [initial.pipes]
    cases entry : world.fds (-1) with
    | none => exact entry
    | some inst =>
      have bounds := initial.bounded (-1) inst entry
      omega
  constructor
  · intro one other inst left
    cases (nothing one).symm.trans left
  · intro inst
    change _ ↔ inst ∈ world.own ∧ _
    rw [initial.own]
    constructor
    · intro held
      obtain ⟨holder, entry⟩ := held
      cases (nothing holder).symm.trans entry
    · exact fun own => absurd own.1 List.not_mem_nil
  · exact fun holder => .inl (ends_of_none (initial.pipes holder.1) holder.2)
  · intro inst member
    change inst ∈ world.closed at member
    rw [initial.closed] at member
    exact absurd member List.not_mem_nil
  · change world.closed.Nodup
    rw [initial.closed]
    exact List.nodup_nil
  · exact initial.distinct
  · exact initial.bounded
  · intro inst member
    change inst ∈ world.own at member
    rw [initial.own] at member
    exact absurd member List.not_mem_nil

/-- In every run of careful steps a descriptor of pipes that is not closed is in one end of one pipe, and
every end that is not -1 has one; pipes close nothing else and nothing twice, and everything once they
are all gone; and a step that makes a copy dups exactly the open ends of the original. -/
theorem owned_by_one_end (world final : PipeWorld) (ops : List PipeOp) (initial : world.Initial)
    (admitted : Admits step Careful world ops) (reached : run step world ops = some final) :
    (∀ inst ∈ final.own, inst ∉ final.closed → ∃! holder, final.fds (final.ends holder) = some inst) ∧
      (∀ holder, final.ends holder ≠ -1 →
        ∃ inst ∈ final.own, inst ∉ final.closed ∧ final.fds (final.ends holder) = some inst) ∧
      (∀ inst ∈ final.closed, inst ∈ final.own ∧ final.closed.count inst = 1) ∧
      ((∀ name, final.pipes name = none) → ∀ inst ∈ final.own, final.closed.count inst = 1) ∧
      ∀ op name source next, Careful final op → copies op = some (name, source) → step final op = some next →
        next.threw = false → ∀ side, DupOf final next (final.ends (source, side)) (next.ends (name, side)) := by
  have sound := run_invariant step_sound initial.sound admitted reached
  refine ⟨fun inst own unclosed => Holdings.Sound.existsUnique_holder sound own unclosed, fun holder has => ?_,
    fun inst closed => ⟨Holdings.Sound.closedOwn sound inst closed, ?_⟩, fun gone inst own => ?_,
    fun op name source next careful copy taken returned side => step_copies sound careful copy taken returned side⟩
  · obtain ⟨inst, entry⟩ := Option.ne_none_iff_exists'.mp ((Holdings.Sound.secured sound holder).resolve_left has)
    obtain ⟨own, unclosed⟩ := (Holdings.Sound.kept sound inst).mp ⟨holder, entry⟩
    exact ⟨inst, own, unclosed, entry⟩
  · exact List.count_eq_one_of_mem (Holdings.Sound.closedOnce sound) closed
  · exact Holdings.Sound.count_closed sound (fun holder => ends_of_none (gone holder.1) holder.2) own

/-- A process with descriptors 0 to 2. -/
def processWithStdio : PipeWorld where
  fds number := if 0 ≤ number ∧ number < 3 then some number.toNat else none
  file inst := inst
  opened := 3

theorem processWithStdio_initial : processWithStdio.Initial where
  own := rfl
  closed := rfl
  pipes _ := rfl
  distinct left right inst leftEntry rightEntry := by
    simp only [processWithStdio, Option.ite_none_right_eq_some, Option.some.injEq] at leftEntry rightEntry
    omega
  bounded number inst entry := by
    simp only [processWithStdio, Option.ite_none_right_eq_some, Option.some.injEq] at entry ⊢
    omega

/-- A pipe is copied and moved, the copy is moved back into it, and an async_pipe is converted. -/
def copiedAndMoved : List PipeOp :=
  [.pipe false 0 (some (3, 4)) .both, .copyConstruct false 1 0 (some 5) (some 6) .both, .moveConstruct false 2 0,
    .moveAssign false 0 1, .close 2, .pipe true 3 (some (3, 4)) .both, .toBasic 4 3 (some 7) (some 8), .destroy 0,
    .destroy 1, .destroy 2, .destroy 3, .destroy 4]

theorem copiedAndMoved_admitted : Admits step Careful processWithStdio copiedAndMoved := by
  apply (admits_cons rfl).mpr
  refine ⟨fun _ _ => rfl, ?_⟩
  apply (admits_cons rfl).mpr
  refine ⟨fun _ _ _ _ _ => Option.some_ne_none 6, ?_⟩
  apply (admits_cons rfl).mpr
  refine ⟨trivial, ?_⟩
  apply (admits_cons rfl).mpr
  constructor
  · -- the pipe has been moved from
    intro self entry
    obtain rfl : (⟨⟨-1, -1⟩, false⟩ : PipeObject) = self := Option.some.inj entry
    rfl
  · apply (admits_cons rfl).mpr
    refine ⟨trivial, ?_⟩
    apply (admits_cons rfl).mpr
    refine ⟨fun _ _ => rfl, ?_⟩
    apply (admits_cons rfl).mpr
    refine ⟨fun _ _ _ _ _ => Option.some_ne_none 8, ?_⟩
    apply (admits_cons rfl).mpr
    refine ⟨trivial, ?_⟩
    apply (admits_cons rfl).mpr
    refine ⟨trivial, ?_⟩
    apply (admits_cons rfl).mpr
    refine ⟨trivial, ?_⟩
    apply (admits_cons rfl).mpr
    refine ⟨trivial, ?_⟩
    apply (admits_cons rfl).mpr
    exact ⟨trivial, trivial⟩

theorem owned_by_one_end_copiedAndMoved : ∃ final, run step processWithStdio copiedAndMoved = some final ∧
    final.own = [10, 9, 8, 7, 6, 5, 4, 3] ∧ ∀ inst ∈ final.own, final.closed.count inst = 1 := by
  refine ⟨_, rfl, rfl, ?_⟩
  have owned := owned_by_one_end processWithStdio _ copiedAndMoved processWithStdio_initial copiedAndMoved_admitted rfl
  apply owned.2.2.2.1
  intro name
  match name with
  | 0 => rfl
  | 1 => rfl
  | 2 => rfl
  | 3 => rfl
  | 4 => rfl
  | _ + 5 => rfl

/-- A basic_pipe that is moved into an open one leaves that one's descriptors open, an async_pipe from a
basic_pipe closes what is not a pipe's, and an open async_pipe has a closed copy. Where the reactor
refuses the sink of a new async_pipe, that stays open and nobody has it. -/
theorem not_owned_by_one_end :
    (∃ final, run step processWithStdio
        [.pipe false 0 (some (3, 4)) .both, .pipe false 1 (some (5, 6)) .both, .moveAssign false 0 1, .destroy 0, .destroy 1] =
          some final ∧ (∀ name, final.pipes name = none) ∧ 3 ∈ final.own ∧ final.closed.count 3 = 0) ∧
      (∃ final, run step processWithStdio
        [.pipe false 0 (some (3, 4)) .both, .toAsync 1 0 .both, .destroy 0, .callerOpen 3, .destroy 1] =
          some final ∧ 5 ∈ final.closed ∧ 5 ∉ final.own) ∧
      (∃ final, run step processWithStdio [.pipe true 0 (some (3, 4)) .both, .copyConstruct true 1 0 none none .both] =
        some final ∧ final.threw = false ∧ final.ends (0, .source) = 3 ∧ final.ends (1, .source) = -1) ∧
      ∃ final, run step processWithStdio [.pipe true 0 (some (3, 4)) ⟨true, false⟩] = some final ∧
        (∀ name, final.pipes name = none) ∧ 4 ∈ final.own ∧ final.closed.count 4 = 0 := by
  refine ⟨⟨_, rfl, ?_, ?_, rfl⟩, ⟨_, rfl, ?_, ?_⟩, ⟨_, rfl, rfl, rfl, rfl⟩, ⟨_, rfl, fun _ => rfl, ?_, rfl⟩⟩
  · intro name
    match name with
    | 0 => rfl
    | 1 => rfl
    | _ + 2 => rfl
  · change 3 ∈ [6, 5, 4, 3]
    decide
  · change 5 ∈ [5, 3, 4]
    decide
  · change 5 ∉ [4, 3]
    decide
  · change 4 ∈ [4, 3]
    decide

end PipeWorld
end BoostProcess.V1.Posix
