import BoostProcess.V1.Posix.PipeObjects
import Mathlib.Logic.Equiv.Basic
import Mathlib.Logic.Equiv.Prod

/-! The special members of pipes, one at a time, and the holder that every descriptor has behind them. -/

set_option autoImplicit false

namespace BoostProcess.V1.Posix

theorem BasicPipe.isOpen_eq_false {pipe : BasicPipe} : pipe.isOpen = false ↔ pipe.source = -1 ∧ pipe.sink = -1 := by
  simp [BasicPipe.isOpen]

namespace PipeWorld

variable {world next : PipeWorld} {name source : Nat} {held : Nat × End → Int} {first second : Option Int}

/-- The descriptors of a world in the hands of some holders. -/
def withEnds (world : PipeWorld) (held : Nat × End → Int) : Holdings (Nat × End) :=
  ⟨world.fds, world.opened, world.own, world.closed, held⟩

def Sound (world : PipeWorld) : Prop := world.holdings.Sound

/-! ## Ends -/

theorem ends_of_some {pipe : PipeObject} (there : world.pipes name = some pipe) (side : End) :
    world.ends (name, side) = pipe.fd side := by
  simp [ends, there]

theorem ends_of_none (absent : world.pipes name = none) (side : End) : world.ends (name, side) = -1 := by
  simp [ends, absent]

theorem ends_update (world : PipeWorld) (name : Nat) (pipe : Option PipeObject) :
    (world.set name pipe).ends =
      Function.update (Function.update world.ends (name, .source) ((pipe.map (·.fd .source)).getD (-1)))
        (name, .sink) ((pipe.map (·.fd .sink)).getD (-1)) := by
  funext holder
  obtain ⟨other, side⟩ := holder
  by_cases same : other = name
  · subst same
    cases side with
    | source => simp [ends, set]
    | sink => simp [ends, set]
  · simp [ends, set, same]

theorem ends_of_pipes (same : next.pipes = world.pipes) : next.ends = world.ends := by
  funext holder
  unfold ends
  rw [same]

theorem ends_set_same {pipe : Option PipeObject} (same : ∀ side, (pipe.map (·.fd side)).getD (-1) = world.ends (name, side)) :
    (world.set name pipe).ends = world.ends := by
  rw [ends_update, same, same, Function.update_eq_self, Function.update_eq_self]

theorem ends_exchange {left right : PipeObject} (leftEnds : ∀ side, left.fd side = world.ends (source, side))
    (rightEnds : ∀ side, right.fd side = world.ends (name, side)) :
    ((world.set name (some left)).set source (some right)).ends =
      world.ends ∘ Equiv.prodCongr (Equiv.swap name source) (Equiv.refl End) := by
  funext holder
  obtain ⟨other, side⟩ := holder
  change _ = world.ends (Equiv.swap name source other, side)
  by_cases isSource : other = source
  · subst isSource
    rw [Equiv.swap_apply_right, ← rightEnds]
    simp [ends, set]
  · by_cases isName : other = name
    · subst isName
      rw [Equiv.swap_apply_left, ← leftEnds]
      simp [ends, set, isSource]
    · rw [Equiv.swap_apply_of_ne_of_ne isName isSource]
      simp [ends, set, isSource, isName]

theorem update_vacant {holder : Nat × End} (vacant : held holder = -1) : Function.update held holder (-1) = held := by
  rw [← vacant, Function.update_eq_self]

/-! ## Dups -/

theorem dup_cases {fd : Int} {result number : Option Int} (done : world.dup fd result = some (next, number)) :
    fd = -1 ∧ number = none ∧ next = world ∨ fd ≠ -1 ∧ result = none ∧ number = some (-1) ∧ next = world ∨
      ∃ given inst, fd ≠ -1 ∧ result = some given ∧ number = some given ∧ world.fds fd = some inst ∧ world.Free given ∧
        next = world.openOwn given (world.file inst) := by
  unfold dup at done
  split at done
  · rename_i none
    cases done
    exact .inl ⟨none, rfl, rfl⟩
  · rename_i some
    cases result with
    | none =>
      cases done
      exact .inr (.inl ⟨some, rfl, rfl, rfl⟩)
    | some given =>
      obtain ⟨inst, there, done⟩ := Option.bind_eq_some_iff.mp done
      split at done
      · rename_i free
        cases done
        exact .inr (.inr ⟨given, inst, some, rfl, rfl, there, free, rfl⟩)
      · cases done

/-- What a dup returns can go to a holder that has nothing. -/
theorem dup_sound {fd : Int} {result number : Option Int} {holder : Nat × End} (sound : (world.withEnds held).Sound)
    (vacant : fd ≠ -1 → held holder = -1) (done : world.dup fd result = some (next, number)) :
    (next.withEnds (Function.update held holder (number.getD (held holder)))).Sound := by
  obtain ⟨-, rfl, rfl⟩ | ⟨some, -, rfl, rfl⟩ | ⟨given, inst, some, -, rfl, -, free, rfl⟩ := dup_cases done
  · rw [Option.getD_none, Function.update_eq_self]
    exact sound
  · rw [Option.getD_some, update_vacant (vacant some)]
    exact sound
  · exact sound.acquire (vacant some) free

theorem free_ne {number : Int} (free : world.Free number) : number ≠ -1 := by
  have positive := free.1
  omega

theorem dup_failed {fd : Int} {result number : Option Int} (done : world.dup fd result = some (next, number)) :
    number = some (-1) ↔ fd ≠ -1 ∧ result = none := by
  obtain ⟨none, rfl, -⟩ | ⟨some, none, rfl, -⟩ | ⟨given, inst, -, made, rfl, -, free, -⟩ := dup_cases done
  · simp [none]
  · simp [some, none]
  · simp [made, free_ne free]

theorem dup_pipes {fd : Int} {result number : Option Int} (done : world.dup fd result = some (next, number)) :
    next.pipes = world.pipes := by
  obtain ⟨-, -, rfl⟩ | ⟨-, -, -, rfl⟩ | ⟨given, inst, -, -, -, -, -, rfl⟩ := dup_cases done
  · rfl
  · rfl
  · rfl

theorem duplicate_cases {rhs : PipeObject} {left right : Option Int}
    (done : world.duplicate rhs first second = some (next, left, right)) :
    world.dup rhs.source first = some (next, left) ∧ left = some (-1) ∧ right = none ∨
      ∃ middle, world.dup rhs.source first = some (middle, left) ∧ left ≠ some (-1) ∧
        middle.dup rhs.sink second = some (next, right) := by
  unfold duplicate at done
  obtain ⟨⟨middle, got⟩, dupped, done⟩ := Option.bind_eq_some_iff.mp done
  dsimp only at done
  split at done
  · rename_i failed
    cases done
    exact .inl ⟨dupped, failed, rfl⟩
  · rename_i some
    obtain ⟨⟨final, also⟩, again, same⟩ := Option.map_eq_some_iff.mp done
    cases same
    exact .inr ⟨middle, dupped, some, again⟩

theorem duplicate_pipes {rhs : PipeObject} {left right : Option Int}
    (done : world.duplicate rhs first second = some (next, left, right)) : next.pipes = world.pipes := by
  obtain ⟨dupped, -, -⟩ | ⟨middle, dupped, -, again⟩ := duplicate_cases done
  · exact dup_pipes dupped
  · exact (dup_pipes again).trans (dup_pipes dupped)

theorem duplicate_sound {rhs : PipeObject} {left right : Option Int} (sound : (world.withEnds held).Sound)
    (vacant : rhs.source ≠ -1 → held (name, .source) = -1)
    (vacantSink : left ≠ some (-1) → rhs.sink ≠ -1 → held (name, .sink) = -1)
    (done : world.duplicate rhs first second = some (next, left, right)) :
    (next.withEnds (Function.update (Function.update held (name, .source) (left.getD (held (name, .source)))) (name, .sink)
      (right.getD (held (name, .sink))))).Sound := by
  have other (number : Int) : Function.update held (name, .source) number (name, .sink) = held (name, .sink) :=
    Function.update_of_ne (by simp) _ _
  obtain ⟨dupped, -, rfl⟩ | ⟨middle, dupped, made, again⟩ := duplicate_cases done
  · have one := dup_sound sound vacant dupped
    rw [Option.getD_none, ← other (left.getD (held (name, .source))), Function.update_eq_self]
    exact one
  · have both := @dup_sound middle next _ rhs.sink second right (name, .sink) (dup_sound sound vacant dupped)
      (fun some => (other _).trans (vacantSink made some)) again
    rw [other] at both
    exact both

/-- No dup is made before one that fails. -/
def NoOrphan (rhs : PipeObject) (first second : Option Int) : Prop :=
  rhs.source ≠ -1 → first ≠ none → rhs.sink ≠ -1 → second ≠ none

/-- No dup fails. -/
def Dupped (rhs : PipeObject) (first second : Option Int) : Prop :=
  (rhs.source ≠ -1 → first ≠ none) ∧ (rhs.sink ≠ -1 → second ≠ none)

theorem dupped_of_returned {rhs : PipeObject} {left right : Option Int}
    (done : world.duplicate rhs first second = some (next, left, right))
    (returned : ¬ (left = some (-1) ∨ right = some (-1))) : Dupped rhs first second := by
  rw [not_or] at returned
  obtain ⟨-, failed, -⟩ | ⟨middle, one, -, two⟩ := duplicate_cases done
  · exact absurd failed returned.1
  · exact ⟨not_and.mp (mt (dup_failed one).mpr returned.1), not_and.mp (mt (dup_failed two).mpr returned.2)⟩

theorem eq_of_thrown {rhs : PipeObject} {left right : Option Int} (careful : NoOrphan rhs first second)
    (done : world.duplicate rhs first second = some (next, left, right)) (thrown : left = some (-1) ∨ right = some (-1)) :
    next = world := by
  have unmade {fd : Int} {result : Option Int} {after : PipeWorld}
      (failed : world.dup fd result = some (after, some (-1))) : after = world := by
    obtain ⟨-, same, -⟩ | ⟨-, -, -, rfl⟩ | ⟨given, inst, -, -, same, -, free, -⟩ := dup_cases failed
    · cases same
    · rfl
    · exact absurd (Option.some.inj same).symm (free_ne free)
  obtain ⟨dupped, rfl, -⟩ | ⟨middle, dupped, made, again⟩ := duplicate_cases done
  · exact unmade dupped
  · obtain rfl := thrown.resolve_left made
    obtain ⟨sink, none⟩ := (dup_failed again).mp rfl
    obtain ⟨-, -, rfl⟩ | ⟨-, -, failed, -⟩ | ⟨given, inst, source, taken, -, -, -, -⟩ := dup_cases dupped
    · exact unmade again
    · exact absurd failed made
    · exact absurd none (careful source (by simp [taken]) sink)

/-! ## What the members keep -/

theorem returns_sound {pipe : PipeObject}
    (sound : (world.withEnds (Function.update (Function.update world.ends (name, .source) pipe.source) (name, .sink)
      pipe.sink)).Sound) : (world.returns name (some pipe)).Sound := by
  unfold Sound holdings
  change (world.withEnds (world.set name (some pipe)).ends).Sound
  rw [ends_update]
  exact sound

theorem set_sound {pipe : Option PipeObject} (sound : world.Sound)
    (same : ∀ side, (pipe.map (·.fd side)).getD (-1) = world.ends (name, side)) : (world.set name pipe).Sound := by
  unfold Sound holdings
  rw [ends_set_same same]
  exact sound

theorem duplicate_thrown_sound {rhs : PipeObject} {left right : Option Int} (sound : world.Sound)
    (careful : NoOrphan rhs first second) (done : world.duplicate rhs first second = some (next, left, right))
    (thrown : left = some (-1) ∨ right = some (-1)) : next.Sound := by
  rw [eq_of_thrown careful done thrown]
  exact sound

theorem duplicate_returns_sound {rhs pipe : PipeObject} {left right : Option Int} (sound : world.Sound)
    (vacant : rhs.source ≠ -1 → world.ends (name, .source) = -1)
    (vacantSink : left ≠ some (-1) → rhs.sink ≠ -1 → world.ends (name, .sink) = -1)
    (done : world.duplicate rhs first second = some (next, left, right))
    (source : pipe.source = left.getD (world.ends (name, .source)))
    (sink : pipe.sink = right.getD (world.ends (name, .sink))) : (next.returns name (some pipe)).Sound := by
  apply returns_sound
  rw [ends_of_pipes (duplicate_pipes done), source, sink]
  exact duplicate_sound sound vacant vacantSink done

theorem copyBasic_sound {rhs : PipeObject} (sound : world.Sound) (unused : world.pipes name = none)
    (careful : NoOrphan rhs first second) (done : world.copyBasic name rhs first second = some next) : next.Sound := by
  obtain ⟨⟨middle, left, right⟩, dupped, rfl⟩ := Option.map_eq_some_iff.mp done
  have vacant := ends_of_none unused
  dsimp only
  split
  · rename_i thrown
    have kept := duplicate_thrown_sound sound careful dupped thrown
    exact kept
  · apply duplicate_returns_sound sound (fun _ => vacant .source) (fun _ _ => vacant .sink) dupped
    · rw [vacant]
    · rw [vacant]

theorem vacant_of_closed {self : PipeObject} (entry : world.pipes name = some self) (closed : self.isOpen = false) (side : End) :
    world.ends (name, side) = -1 := by
  obtain ⟨noSource, noSink⟩ := BasicPipe.isOpen_eq_false.mp closed
  rw [ends_of_some entry]
  cases side with
  | source => exact noSource
  | sink => exact noSink

/-- An assignment puts dups where nothing is, and no dup fails only where the pipe had nothing. -/
def Vacant (self rhs : PipeObject) (first second : Option Int) : Prop :=
  (rhs.source ≠ -1 → self.source = -1) ∧
    ((rhs.source ≠ -1 → first ≠ none) → rhs.sink ≠ -1 → self.sink = -1) ∧
    (Dupped rhs first second → self.isOpen = false)

theorem copyAssignBasic_sound {self rhs : PipeObject} (sound : world.Sound) (entry : world.pipes name = some self)
    (careful : Vacant self rhs first second) (done : world.copyAssignBasic name self rhs first second = some next) :
    next.Sound := by
  obtain ⟨⟨middle, left, right⟩, dupped, rfl⟩ := Option.map_eq_some_iff.mp done
  have source : world.ends (name, .source) = self.source := ends_of_some entry .source
  have sink : world.ends (name, .sink) = self.sink := ends_of_some entry .sink
  have stored : (middle.returns name (some ⟨⟨left.getD self.source, right.getD self.sink⟩, false⟩)).Sound := by
    apply duplicate_returns_sound sound _ _ dupped
    · rw [source]
    · rw [sink]
    · rw [source]
      exact careful.1
    · intro made
      rw [sink]
      apply careful.2.1
      obtain ⟨-, failed, -⟩ | ⟨between, one, -, -⟩ := duplicate_cases dupped
      · exact absurd failed made
      · exact not_and.mp (mt (dup_failed one).mpr made)
  dsimp only
  split
  · exact stored
  · exact stored

theorem exchange_sound {left right : PipeObject} (sound : world.Sound)
    (leftEnds : ∀ side, left.fd side = world.ends (source, side)) (rightEnds : ∀ side, right.fd side = world.ends (name, side)) :
    ((world.set name (some left)).returns source (some right)).Sound := by
  unfold Sound holdings
  change (world.withEnds ((world.set name (some left)).set source (some right)).ends).Sound
  rw [ends_exchange leftEnds rightEnds]
  exact sound.permute _

theorem moveOut_sound {lhs : PipeObject} (sound : world.Sound) (vacant : ∀ side, world.ends (name, side) = -1)
    (entry : world.pipes source = some lhs) :
    ((world.set name (some lhs)).returns source (some { lhs with source := -1, sink := -1 })).Sound := by
  apply exchange_sound sound
  · exact fun side => (ends_of_some entry side).symm
  · intro side
    rw [vacant]
    cases side <;> rfl

/-- An async_pipe takes no descriptor, or none that it was given is left. -/
theorem assignBoth_sound {assigns : Assigns} {left right : Int} (sound : world.Sound) (unused : world.pipes name = none)
    (nothing : assigns.source = true → left = -1 ∧ (assigns.sink = true → right = -1)) :
    (world.assignBoth name assigns left right).Sound := by
  unfold assignBoth assign
  cases takes : assigns.source with
  | false => exact sound
  | true =>
    obtain ⟨rfl, noSink⟩ := nothing takes
    cases also : assigns.sink with
    | false => exact sound
    | true =>
      obtain rfl := noSink also
      apply set_sound sound
      intro side
      rw [ends_of_none unused]
      cases side <;> rfl

theorem assign_eq_some {takes : Bool} {current fd got : Int} (assigned : assign takes current fd = some got) :
    current = -1 ∧ got = fd := by
  unfold assign at assigned
  split at assigned
  · rename_i closed
    exact ⟨closed.1, (Option.some.inj assigned).symm⟩
  · cases assigned

/-- Where the reactor takes both, a constructor has what it has opened. -/
theorem store_eq {async : Bool} {assigns : Assigns} (takes : async = true → assigns = .both) (left right : Int) :
    world.store async name assigns left right = world.returns name (some ⟨⟨left, right⟩, async⟩) := by
  unfold store
  cases async with
  | false => rfl
  | true =>
    rw [takes rfl]
    rfl

theorem copyAssignAsync_closed_sound {assigns : Assigns} {self p : PipeObject} (sound : world.Sound)
    (entry : world.pipes name = some self) (closed : p.isOpen = false)
    (done : world.copyAssignAsync name self p first second assigns = some next) : next.Sound := by
  obtain ⟨noSource, noSink⟩ := BasicPipe.isOpen_eq_false.mp closed
  have nothing : world.duplicate p first second = some (world, none, none) := by
    simp [duplicate, dup, noSource, noSink]
  obtain ⟨⟨middle, left, right⟩, dupped, rfl⟩ := Option.map_eq_some_iff.mp done
  cases nothing.symm.trans dupped
  have kept {pipe : PipeObject} (source : pipe.source = self.source) (sink : pipe.sink = self.sink) :
      (world.set name (some pipe)).Sound := by
    apply set_sound sound
    intro side
    rw [ends_of_some entry]
    cases side with
    | source => exact source
    | sink => exact sink
  simp only [reduceCtorEq, or_self, if_false, Option.getD_none]
  split
  · exact sound
  · rename_i source assigned
    obtain ⟨was, rfl⟩ := assign_eq_some assigned
    split
    · exact kept was.symm rfl
    · rename_i sink assigned
      obtain ⟨also, rfl⟩ := assign_eq_some assigned
      exact kept was.symm also.symm

theorem copyAssignAsync_open_sound {assigns : Assigns} {self p : PipeObject} (sound : world.Sound)
    (entry : world.pipes name = some self) (careful : NoOrphan p first second)
    (room : Dupped p first second →
      self.source = -1 ∧ assigns.source = true ∧ (p.sink ≠ -1 → self.sink = -1 ∧ assigns.sink = true))
    (done : world.copyAssignAsync name self p first second assigns = some next) : next.Sound := by
  obtain ⟨⟨middle, left, right⟩, dupped, rfl⟩ := Option.map_eq_some_iff.mp done
  have source : world.ends (name, .source) = self.source := ends_of_some entry .source
  have sink : world.ends (name, .sink) = self.sink := ends_of_some entry .sink
  dsimp only
  split
  · rename_i thrown
    have kept := duplicate_thrown_sound sound careful dupped thrown
    exact kept
  · rename_i returned
    obtain ⟨noSource, takes, vacantSink⟩ := room (dupped_of_returned dupped returned)
    rw [not_or] at returned
    obtain ⟨-, failed, -⟩ | ⟨between, one, -, two⟩ := duplicate_cases dupped
    · exact absurd failed returned.1
    have stored {pipe : PipeObject} (gotSource : pipe.source = left.getD (-1)) (gotSink : pipe.sink = right.getD self.sink) :
        (middle.returns name (some pipe)).Sound := by
      apply duplicate_returns_sound sound _ _ dupped
      · rw [source, noSource]
        exact gotSource
      · rw [sink]
        exact gotSink
      · exact fun _ => source.trans noSource
      · exact fun _ some => sink.trans (vacantSink some).1
    have assigned : assign assigns.source self.source (left.getD (-1)) = some (left.getD (-1)) := if_pos ⟨noSource, takes⟩
    rw [assigned]
    dsimp only
    split
    · rename_i refused
      apply @stored { self with source := left.getD (-1) } rfl
      obtain ⟨-, rfl, -⟩ | ⟨-, -, same, -⟩ | ⟨given, inst, some, -, rfl, -, free, -⟩ := dup_cases two
      · rfl
      · exact absurd same returned.2
      · rw [assign, if_pos (vacantSink some)] at refused
        cases refused
    · rename_i got assigned
      obtain ⟨noSink, rfl⟩ := assign_eq_some assigned
      exact stored rfl (by rw [noSink])

/-! ## Closing -/

theorem close_eq (negative : world.fds (-1) = none) (fd : Int) :
    world.close fd = { world with
      fds := Function.update world.fds fd none, closed := (world.fds fd).toList ++ world.closed } := by
  have unchanged (closed : world.fds fd = none) : world = { world with
      fds := Function.update world.fds fd none, closed := (world.fds fd).toList ++ world.closed } := by
    rw [closed, ← closed, Function.update_eq_self, closed]
    rfl
  unfold close
  split
  · rename_i none
    exact unchanged (none ▸ negative)
  · split
    · rename_i inst entry
      rw [entry]
      rfl
    · rename_i entry
      exact unchanged entry

theorem close_pipes (world : PipeWorld) (fd : Int) : (world.close fd).pipes = world.pipes := by
  unfold close
  split
  · rfl
  · split <;> rfl

theorem close_sound {holder : Nat × End} {fd : Int} (sound : (world.withEnds held).Sound) (has : held holder = fd) :
    ((world.close fd).withEnds (Function.update held holder (-1))).Sound := by
  have released := sound.release holder
  rw [close_eq sound.negative, ← has]
  exact released

theorem close_both_sound {pipe : Option PipeObject} (sound : world.Sound) {one other : End} (distinct : one ≠ other)
    (forgotten : ∀ side, (pipe.map (·.fd side)).getD (-1) = -1) :
    (((world.close (world.ends (name, one))).close (world.ends (name, other))).returns name pipe).Sound := by
  have apart : (name, other) ≠ (name, one) := fun same => distinct (Prod.mk.inj same).2.symm
  have first := @close_sound world world.ends (name, one) _ sound rfl
  have both := close_sound first (Function.update_of_ne apart _ _)
  unfold Sound holdings
  change (PipeWorld.withEnds _ (PipeWorld.set _ name pipe).ends).Sound
  rw [ends_update, forgotten, forgotten, ends_of_pipes ((close_pipes _ _).trans (close_pipes _ _))]
  cases one with
  | source =>
    cases other with
    | source => exact absurd rfl distinct
    | sink => exact both
  | sink =>
    cases other with
    | source =>
      rw [Function.update_comm apart.symm] at both
      exact both
    | sink => exact absurd rfl distinct

theorem closePipe_sound {self : PipeObject} (sound : world.Sound) (entry : world.pipes name = some self) :
    (world.closePipe name self).Sound := by
  have source : self.source = world.ends (name, .source) := (ends_of_some entry .source).symm
  have sink : self.sink = world.ends (name, .sink) := (ends_of_some entry .sink).symm
  have forgotten (side : End) :
      ((some { self with source := -1, sink := -1 } : Option PipeObject).map (·.fd side)).getD (-1) = -1 := by
    cases side <;> rfl
  unfold closePipe
  cases self.async with
  | true =>
    rw [if_pos rfl, source, sink]
    exact close_both_sound sound (by simp) forgotten
  | false =>
    rw [if_neg (by simp), source, sink]
    exact close_both_sound sound (by simp) forgotten

theorem destroy_sound {self : PipeObject} (sound : world.Sound) (entry : world.pipes name = some self) :
    (world.destroy name self).Sound := by
  have source : self.source = world.ends (name, .source) := (ends_of_some entry .source).symm
  have sink : self.sink = world.ends (name, .sink) := (ends_of_some entry .sink).symm
  unfold destroy
  rw [source, sink]
  exact close_both_sound sound (by simp) fun _ => rfl

theorem takeOver_sound {holder : Nat × End} {fd : Int} (sound : (world.withEnds held).Sound) (vacant : held holder = -1)
    (taken : world.takeOver fd = some next) :
    (next.withEnds (Function.update held holder fd)).Sound ∧ next.pipes = world.pipes := by
  unfold takeOver at taken
  split at taken
  · rename_i none
    cases taken
    rw [none, update_vacant vacant]
    exact ⟨sound, rfl⟩
  · obtain ⟨inst, there, taken⟩ := Option.bind_eq_some_iff.mp taken
    split at taken
    · cases taken
    · rename_i foreign
      cases taken
      exact ⟨sound.hold vacant there foreign, rfl⟩

end PipeWorld
end BoostProcess.V1.Posix
