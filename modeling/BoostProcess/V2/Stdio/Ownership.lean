import Mathlib.Data.List.Nodup
import BoostProcess.V2.Stdio.IoBinding

/-! Ownership of the descriptors that bindings open: every one is held by exactly one
binding until it is closed, as long as no move construction mistakes a number for
the flag and no pipe is abandoned half way.
-/

set_option autoImplicit false

namespace BoostProcess.V2.Stdio

open Custody

namespace World

/-- The instance that a binding would close. -/
def holds (world : World) (binding : IoBinding) : Option Nat :=
  if binding.needsClosing then world.fds binding.fd else none

def custody (world : World) (name : Nat) : Option Nat :=
  (world.bindings name).bind world.holds

/-- What a binding would close is a descriptor, or nothing that will ever be one. -/
def Secured (world : World) (binding : IoBinding) : Prop :=
  binding.needsClosing = true → binding.fd < 0 ∨ world.fds binding.fd ≠ none

structure Sound (world : World) : Prop where
  exclusive : Exclusive world.custody
  held : ∀ inst, Held world.custody inst ↔ inst ∈ world.own ∧ inst ∉ world.closed
  closedOwn : ∀ inst ∈ world.closed, inst ∈ world.own
  closedOnce : world.closed.Nodup
  distinct : ∀ first second inst, world.fds first = some inst → world.fds second = some inst → first = second
  bounded : ∀ number inst, world.fds number = some inst → 0 ≤ number ∧ inst < world.opened
  ownBounded : ∀ inst ∈ world.own, inst < world.opened
  secured : ∀ name binding, world.bindings name = some binding → world.Secured binding

variable {world : World} {name source : Nat} {binding : IoBinding} {number : Int}

theorem custody_set (value : Option IoBinding) :
    (world.set name value).custody = Function.update world.custody name (value.bind world.holds) := by
  funext other
  unfold custody set
  by_cases same : other = name
  · subst same
    simp only [Function.update_self]
    rfl
  · simp only [Function.update_of_ne same]
    rfl

@[simp] theorem set_set (first second : Option IoBinding) :
    (world.set name first).set name second = world.set name second := by
  simp [set]

@[simp] theorem closeBy_bindings (world : World) (binding : IoBinding) :
    (world.closeBy binding).bindings = world.bindings := by
  unfold closeBy
  split
  · split <;> rfl
  · rfl

/-- A binding that is not to be closed holds nothing. -/
@[simp] theorem holds_inherited (target : Int) : world.holds (.inherited target) = none := rfl

/-- No binding holds what is opened at a free number. -/
theorem holds_update {value : Option Nat} (free : world.Free number) (secured : world.Secured binding) :
    holds { world with fds := Function.update world.fds number value } binding = world.holds binding := by
  unfold holds
  split
  · rename_i closing
    apply Function.update_of_ne
    intro same
    rcases secured closing with negative | isOpen
    · have := free.1
      omega
    · rw [same] at isOpen
      exact isOpen free.2
  · rfl

theorem Sound.set (sound : world.Sound) {value : Option IoBinding}
    (same : value.bind world.holds = world.custody name) (secured : ∀ binding, value = some binding → world.Secured binding) :
    (world.set name value).Sound := by
  have unchanged : (world.set name value).custody = world.custody := by
    rw [custody_set, same, Function.update_eq_self]
  refine { exclusive := ?_, held := ?_, closedOwn := sound.closedOwn, closedOnce := sound.closedOnce,
           distinct := sound.distinct, bounded := sound.bounded, ownBounded := sound.ownBounded, secured := ?_ }
  · rw [unchanged]
    exact sound.exclusive
  · rw [unchanged]
    exact sound.held
  · intro other binding entry
    simp only [World.set] at entry
    rw [Function.update_apply] at entry
    split at entry
    · exact secured binding entry
    · exact sound.secured other binding entry

theorem Secured.update {value : Nat} (secured : world.Secured binding) :
    Secured { world with fds := Function.update world.fds number (some value) } binding := by
  intro closing
  rcases secured closing with negative | isOpen
  · exact .inl negative
  · right
    show Function.update world.fds number (some value) binding.fd ≠ none
    rw [Function.update_apply]
    split
    · exact nofun
    · exact isOpen

/-- Opening a descriptor changes nobody's custody. -/
theorem custody_openAt (sound : world.Sound) (free : world.Free number) :
    (world.openAt number).custody = world.custody := by
  funext name
  unfold custody openAt
  cases entry : world.bindings name with
  | none => rfl
  | some binding => exact holds_update free (sound.secured name binding entry)

theorem openAt_distinct (sound : world.Sound) {first second : Int} {inst : Nat}
    (left : (world.openAt number).fds first = some inst) (right : (world.openAt number).fds second = some inst) :
    first = second := by
  have fresh : ¬ Held world.fds world.opened := by
    intro held
    obtain ⟨other, entry⟩ := held
    exact Nat.lt_irrefl _ (sound.bounded other _ entry).2
  exact exclusive_acquire sound.distinct fresh first second inst left right

theorem openAt_bounded (sound : world.Sound) (free : world.Free number) {other : Int} {inst : Nat}
    (entry : (world.openAt number).fds other = some inst) : 0 ≤ other ∧ inst < world.opened + 1 := by
  simp only [openAt, Function.update_apply] at entry
  split at entry
  · rename_i here
    cases entry
    exact ⟨here ▸ free.1, Nat.lt_succ_self _⟩
  · have old := sound.bounded other inst entry
    exact ⟨old.1, Nat.lt_succ_of_lt old.2⟩

theorem Sound.openAt (sound : world.Sound) (free : world.Free number) : (world.openAt number).Sound where
  exclusive := by
    rw [custody_openAt sound free]
    exact sound.exclusive
  held := by
    rw [custody_openAt sound free]
    exact sound.held
  closedOwn := sound.closedOwn
  closedOnce := sound.closedOnce
  distinct _ _ _ := openAt_distinct sound
  bounded _ _ := openAt_bounded sound free
  ownBounded inst member := Nat.lt_succ_of_lt (sound.ownBounded inst member)
  secured name binding entry := (sound.secured name binding entry).update

/-- A binding that opens a descriptor for itself acquires it. -/
theorem Sound.openOwn (sound : world.Sound) (free : world.Free number) (unused : world.bindings name = none)
    (target : Int) : ((world.openOwn number).set name (some ⟨target, number, true⟩)).Sound := by
  have empty : world.custody name = none := by
    simp [World.custody, unused]
  have fresh : ¬ Held world.custody world.opened := by
    intro held
    exact absurd (sound.ownBounded _ ((sound.held _).mp held).1) (Nat.lt_irrefl _)
  have acquired : ((world.openOwn number).set name (some ⟨target, number, true⟩)).custody =
      acquire world.custody name world.opened := by
    rw [custody_set]
    have before : (world.openOwn number).custody = world.custody := custody_openAt sound free
    rw [before]
    simp [World.holds, World.openOwn, World.openAt, acquire]
  have unclosed : world.opened ∉ world.closed := by
    intro member
    exact absurd (sound.ownBounded _ (sound.closedOwn _ member)) (Nat.lt_irrefl _)
  refine { exclusive := ?_, held := ?_, closedOwn := fun inst member => List.mem_cons_of_mem _ (sound.closedOwn inst member),
           closedOnce := sound.closedOnce, distinct := fun _ _ _ => openAt_distinct sound,
           bounded := fun _ _ => openAt_bounded sound free, ownBounded := ?_, secured := ?_ }
  · rw [acquired]
    exact exclusive_acquire sound.exclusive fresh
  · intro inst
    rw [acquired, held_acquire_iff empty, sound.held]
    simp only [World.set, World.openOwn, List.mem_cons, World.openAt]
    constructor
    · rintro (rfl | ⟨own, left⟩)
      · exact ⟨.inl rfl, unclosed⟩
      · exact ⟨.inr own, left⟩
    · rintro ⟨rfl | own, left⟩
      · exact .inl rfl
      · exact .inr ⟨own, left⟩
  · intro inst member
    rcases List.mem_cons.mp member with rfl | member
    · exact Nat.lt_succ_self _
    · exact Nat.lt_succ_of_lt (sound.ownBounded inst member)
  · intro other binding entry
    simp only [World.set, Function.update_apply] at entry
    split at entry
    · cases entry
      intro _
      right
      simp [World.set, World.openOwn, World.openAt]
    · exact (sound.secured other binding entry).update

theorem closeBy_cases (world : World) (binding : IoBinding) :
    world.holds binding = none ∧ world.closeBy binding = world ∨
      ∃ inst, world.holds binding = some inst ∧ world.fds binding.fd = some inst ∧
        world.closeBy binding = { world with
          fds := Function.update world.fds binding.fd none, closed := inst :: world.closed } := by
  unfold holds closeBy
  split
  · cases entry : world.fds binding.fd with
    | none => exact .inl ⟨rfl, rfl⟩
    | some inst => exact .inr ⟨inst, rfl, rfl, rfl⟩
  · exact .inl ⟨rfl, rfl⟩

theorem holds_of_ne (sound : world.Sound) {inst : Nat} (entry : world.bindings name = some binding)
    (held : world.holds binding = some inst) (isOpen : world.fds binding.fd = some inst) {other : Nat}
    (distinct : other ≠ name) {second : IoBinding} (otherEntry : world.bindings other = some second) :
    second.needsClosing = true → second.fd ≠ binding.fd := by
  intro closing same
  have mine : world.custody name = some inst := by
    simp [custody, entry, held]
  have yours : world.custody other = some inst := by
    simp [custody, otherEntry, holds, closing, same, isOpen]
  exact distinct (sound.exclusive other name inst yours mine)

/-- The others hold what is at other numbers, so only the binding that closes loses something. -/
theorem custody_closeBy (sound : world.Sound) {inst : Nat} (entry : world.bindings name = some binding)
    (held : world.holds binding = some inst) (isOpen : world.fds binding.fd = some inst)
    (same : world.closeBy binding = { world with
      fds := Function.update world.fds binding.fd none, closed := inst :: world.closed })
    {value : Option IoBinding} (nothing : value.bind (world.closeBy binding).holds = none) :
    ((world.closeBy binding).set name value).custody = release world.custody name := by
  rw [custody_set, nothing]
  funext other
  unfold release
  by_cases here : other = name
  · rw [here, Function.update_self, Function.update_self]
  · rw [Function.update_of_ne here, Function.update_of_ne here, same]
    unfold custody
    cases otherEntry : world.bindings other with
    | none => rfl
    | some second =>
      simp only [Option.bind_some, holds]
      split
      · rename_i closing
        exact Function.update_of_ne (holds_of_ne sound entry held isOpen here otherEntry closing) _ _
      · rfl

/-- A binding that closes and is then reset or gone releases what it held. -/
theorem Sound.closeBy (sound : world.Sound) (entry : world.bindings name = some binding) {value : Option IoBinding}
    (empty : ∀ other, value = some other → other.needsClosing = false) :
    ((world.closeBy binding).set name value).Sound := by
  have holdsNothing (other : World) : value.bind other.holds = none := by
    cases value with
    | none => rfl
    | some kept => simp [holds, empty kept rfl]
  have secured (other : World) : ∀ kept, value = some kept → other.Secured kept := by
    intro kept same closing
    rw [empty kept same] at closing
    cases closing
  rcases closeBy_cases world binding with ⟨nothing, same⟩ | ⟨inst, held, isOpen, same⟩
  · rw [same]
    -- nothing was held, so nothing is closed
    apply sound.set _ (secured world)
    rw [holdsNothing]
    simp [custody, entry, nothing]
  · have mine : world.custody name = some inst := by
      simp [custody, entry, held]
    have owned := (sound.held inst).mp ⟨name, mine⟩
    have released := custody_closeBy sound entry held isOpen same (holdsNothing _)
    refine { exclusive := ?_, held := ?_, closedOwn := ?_, closedOnce := ?_, distinct := ?_, bounded := ?_,
             ownBounded := ?_, secured := ?_ }
    · rw [released]
      exact exclusive_release sound.exclusive
    · intro other
      rw [released, held_release_iff sound.exclusive, sound.held, mine, same]
      simp only [World.set, List.mem_cons, not_or]
      constructor
      · rintro ⟨⟨own, left⟩, elsewhere⟩
        exact ⟨own, fun equal => elsewhere (congrArg some equal.symm), left⟩
      · rintro ⟨own, elsewhere, left⟩
        exact ⟨⟨own, left⟩, fun equal => elsewhere (Option.some.inj equal).symm⟩
    · intro other member
      rw [same] at member ⊢
      rcases List.mem_cons.mp member with rfl | member
      · exact owned.1
      · exact sound.closedOwn other member
    · rw [same]
      exact List.nodup_cons.mpr ⟨owned.2, sound.closedOnce⟩
    · rw [same]
      exact exclusive_release sound.distinct
    · rw [same]
      exact fun number other isThere => sound.bounded number other (of_release isThere)
    · rw [same]
      exact sound.ownBounded
    · intro other kept keptEntry
      simp only [World.set, Function.update_apply] at keptEntry
      split at keptEntry
      · exact secured _ kept keptEntry
      · rename_i here
        rw [same] at keptEntry ⊢
        intro closing
        rcases sound.secured other kept keptEntry closing with negative | there
        · exact .inl negative
        · right
          have elsewhere := holds_of_ne sound entry held isOpen here keptEntry closing
          simp only [World.set, Function.update_of_ne elsewhere]
          exact there

/-- A move: the new binding holds what the source held, the source is reset. -/
theorem Sound.transfer (sound : world.Sound) {other moved : IoBinding} (entry : world.bindings source = some other)
    (empty : world.custody name = none) (distinct : source ≠ name) (same : world.holds moved = world.holds other)
    (secured : world.Secured moved) (target : Int) :
    ((world.set name (some moved)).set source (some (.inherited target))).Sound := by
  have transferred : ((world.set name (some moved)).set source (some (.inherited target))).custody =
      Custody.transfer world.custody source name := by
    rw [custody_set, custody_set]
    have holds : (some moved).bind world.holds = world.custody source := by
      simp [custody, entry, same]
    rw [holds]
    rfl
  refine { exclusive := ?_, held := ?_, closedOwn := sound.closedOwn, closedOnce := sound.closedOnce,
           distinct := sound.distinct, bounded := sound.bounded, ownBounded := sound.ownBounded, secured := ?_ }
  · rw [transferred]
    exact exclusive_transfer sound.exclusive
  · intro inst
    rw [transferred, held_transfer_iff sound.exclusive distinct, sound.held, empty]
    simp [World.set]
  · intro holder binding found
    simp only [World.set, Function.update_apply] at found
    split at found
    · cases found
      exact nofun
    · split at found
      · cases found
        exact secured
      · exact sound.secured holder binding found

/-- The caller closes a descriptor of its own: no binding would have closed it. -/
theorem Sound.callerClose (sound : world.Sound) {inst : Nat} (isOpen : world.fds number = some inst)
    (foreign : inst ∉ world.own) : Sound { world with fds := Function.update world.fds number none } := by
  have elsewhere {name : Nat} {binding : IoBinding} (entry : world.bindings name = some binding)
      (closing : binding.needsClosing = true) : binding.fd ≠ number := by
    intro same
    have held : world.custody name = some inst := by
      simp [custody, entry, holds, closing, same, isOpen]
    exact foreign ((sound.held inst).mp ⟨name, held⟩).1
  have unchanged : custody { world with fds := Function.update world.fds number none } = world.custody := by
    funext name
    unfold custody
    cases entry : world.bindings name with
    | none => rfl
    | some binding =>
      simp only [Option.bind_some, holds]
      split
      · rename_i closing
        exact Function.update_of_ne (elsewhere entry closing) _ _
      · rfl
  refine { exclusive := ?_, held := ?_, closedOwn := sound.closedOwn, closedOnce := sound.closedOnce,
           distinct := ?_, bounded := ?_, ownBounded := sound.ownBounded, secured := ?_ }
  · rw [unchanged]
    exact sound.exclusive
  · rw [unchanged]
    exact sound.held
  · exact exclusive_release sound.distinct
  · exact fun place other entry => sound.bounded place other (of_release entry)
  · intro name binding entry closing
    rcases sound.secured name binding entry closing with negative | there
    · exact .inl negative
    · right
      show Function.update world.fds number none binding.fd ≠ none
      rw [Function.update_of_ne (elsewhere entry closing)]
      exact there

end World

/-! ## Runs -/

/-- The steps that keep number and flag together: fcntl succeeds on the pipe, and the
source of a move construction owns its descriptor exactly if that is not 0. -/
def Careful (world : World) : Op → Prop
  | .pipe _ _ _ _ controlled => controlled = true
  | .moveConstruct _ source => ∀ other, world.bindings source = some other →
    other.fd < 0 ∨ (other.needsClosing = true ↔ other.fd ≠ 0)
  | _ => True

section
variable {world next : World} {name source : Nat}

theorem construct_some {binding : IoBinding} (constructed : construct world name binding = some next) :
    world.bindings name = none ∧ next = world.set name (some binding) := by
  unfold construct at constructed
  split at constructed
  · rename_i unused
    exact ⟨unused, (Option.some.inj constructed).symm⟩
  · cases constructed

/-- A binding that is constructed around a number and not to be closed. -/
theorem construct_borrowed (sound : world.Sound) {binding : IoBinding} (borrowed : world.holds binding = none)
    (secured : world.Secured binding) (constructed : construct world name binding = some next) : next.Sound := by
  obtain ⟨unused, rfl⟩ := construct_some constructed
  apply sound.set
  · simp [World.custody, unused, borrowed]
  · intro kept same
    cases same
    exact secured

theorem negative_closed (sound : world.Sound) {number : Int} (negative : number < 0) : world.fds number = none := by
  cases entry : world.fds number with
  | none => rfl
  | some inst =>
    have := (sound.bounded number inst entry).1
    omega

theorem pipe_sound (sound : world.Sound) {target kept other : Int} (free : world.Free kept)
    (freeOther : world.Free other) (distinct : kept ≠ other)
    (constructed : construct ((world.openOwn kept).openAt other) name ⟨target, kept, true⟩ = some next) :
    next.Sound := by
  obtain ⟨unused, rfl⟩ := construct_some constructed
  have owned := sound.openOwn free unused target
  have freeNow : ((world.openOwn kept).set name (some ⟨target, kept, true⟩)).Free other := by
    refine ⟨freeOther.1, ?_⟩
    simp only [World.set, World.openOwn, World.openAt, Function.update_of_ne distinct.symm]
    exact freeOther.2
  exact owned.openAt freeNow

theorem moveConstruct_sound (sound : world.Sound) (careful : Careful world (.moveConstruct name source))
    (taken : step world (.moveConstruct name source) = some next) : next.Sound := by
  obtain ⟨other, entry, taken⟩ := Option.bind_eq_some_iff.mp taken
  obtain ⟨middle, constructed, rfl⟩ := Option.map_eq_some_iff.mp taken
  obtain ⟨unused, rfl⟩ := construct_some constructed
  have distinct : source ≠ name := by
    intro same
    rw [same, unused] at entry
    cases entry
  -- the condition makes the number stand for the flag
  have same : world.holds ⟨other.target, other.fd, other.fd != 0⟩ = world.holds other := by
    unfold World.holds
    rcases careful other entry with negative | matching
    · simp [negative_closed sound negative]
    · by_cases zero : other.fd = 0
      · have kept : other.needsClosing = false := by simpa [zero] using matching
        simp [zero, kept]
      · simp [zero, matching.mpr zero]
  have secured : world.Secured ⟨other.target, other.fd, other.fd != 0⟩ := by
    intro closing
    rcases careful other entry with negative | matching
    · exact .inl negative
    · have positive : other.fd ≠ 0 := by simpa using closing
      exact sound.secured source other entry (matching.mpr positive)
  exact sound.transfer entry (by simp [World.custody, unused]) distinct same secured other.target

theorem moveAssign_sound (sound : world.Sound) (taken : step world (.moveAssign name source) = some next) :
    next.Sound := by
  obtain ⟨self, selfEntry, taken⟩ := Option.bind_eq_some_iff.mp taken
  obtain ⟨other, entry, taken⟩ := Option.bind_eq_some_iff.mp taken
  split at taken
  · cases taken
    have closed := sound.closeBy selfEntry (fun kept (same : some (.inherited self.target) = some kept) => by cases same; rfl)
    by_cases same : source = name
    -- onto itself it closes what it holds and forgets it
    · rw [same] at entry ⊢
      rw [entry] at selfEntry
      cases selfEntry
      rw [World.set_set]
      exact closed
    · have entryNow : ((world.closeBy self).set name (some (.inherited self.target))).bindings source = some other := by
        simp [World.set, Function.update_of_ne same, entry]
      have empty : ((world.closeBy self).set name (some (.inherited self.target))).custody name = none := by
        simp [World.custody_set]
      have moved := closed.transfer entryNow empty same rfl (closed.secured source other entryNow) other.target
      rw [World.set_set] at moved
      exact moved
  · cases taken

theorem step_sound : Transition.Preserves step Careful World.Sound := by
  intro world op next sound careful taken
  cases op with
  | inherit name target => exact construct_borrowed sound rfl (fun closing => by cases closing) taken
  | descriptor name target fd => exact construct_borrowed sound rfl (fun closing => by cases closing) taken
  | path name target number =>
    cases number with
    | none =>
      have negative : (-1 : Int) < 0 := by decide
      refine construct_borrowed sound ?_ (fun _ => .inl negative) taken
      simp [World.holds, negative_closed sound negative]
    | some number =>
      simp only [step] at taken
      split at taken
      · rename_i free
        obtain ⟨unused, rfl⟩ := construct_some taken
        exact sound.openOwn free unused target
      · cases taken
  | pipe name target kept other controlled =>
    simp only [step] at taken
    split at taken
    · rename_i ends
      cases (careful : controlled = true)
      exact pipe_sound sound ends.1 ends.2.1 ends.2.2 taken
    · cases taken
  | moveConstruct name source => exact moveConstruct_sound sound careful taken
  | moveAssign name source => exact moveAssign_sound sound taken
  | destroy name =>
    obtain ⟨self, entry, rfl⟩ := Option.map_eq_some_iff.mp taken
    exact sound.closeBy entry nofun
  | callerOpen number =>
    simp only [step] at taken
    split at taken
    · rename_i free
      cases taken
      exact sound.openAt free
    · cases taken
  | callerClose number =>
    obtain ⟨inst, entry, taken⟩ := Option.bind_eq_some_iff.mp taken
    split at taken
    · cases taken
    · rename_i foreign
      cases taken
      exact sound.callerClose entry foreign

end

/-- A process before its first binding: every open descriptor is the caller's. -/
structure World.Initial (world : World) : Prop where
  own : world.own = []
  closed : world.closed = []
  bindings : ∀ name, world.bindings name = none
  distinct : ∀ first second inst, world.fds first = some inst → world.fds second = some inst → first = second
  bounded : ∀ number inst, world.fds number = some inst → 0 ≤ number ∧ inst < world.opened

theorem World.Initial.sound {world : World} (initial : world.Initial) : world.Sound where
  exclusive first second inst left := by simp [World.custody, initial.bindings] at left
  held inst := by simp [Held, World.custody, initial.bindings, initial.own]
  closedOwn := by simp [initial.closed]
  closedOnce := by simp [initial.closed]
  distinct := initial.distinct
  bounded := initial.bounded
  ownBounded := by simp [initial.own]
  secured name binding entry := by simp [initial.bindings] at entry

/-- In every run of careful steps the bindings close nothing but what they opened, nothing
twice, and everything once they are all gone. -/
theorem closed_exactly_once (world final : World) (ops : List Op) (initial : world.Initial)
    (admitted : Transition.Admits step Careful world ops) (reached : Transition.run step world ops = some final) :
    (∀ inst ∈ final.closed, inst ∈ final.own) ∧ (∀ inst, final.closed.count inst ≤ 1) ∧
      ((∀ name, final.bindings name = none) → ∀ inst ∈ final.own, final.closed.count inst = 1) := by
  have sound := Transition.run_invariant step_sound initial.sound admitted reached
  refine ⟨sound.closedOwn, List.nodup_iff_count_le_one.mp sound.closedOnce, fun gone inst own => ?_⟩
  have unheld : ¬ Held final.custody inst := by
    rintro ⟨name, held⟩
    simp [World.custody, gone] at held
  have closed : inst ∈ final.closed := by
    -- what is owned and not closed is held, but nobody is left to hold it
    by_contra left
    exact unheld ((sound.held inst).mpr ⟨own, left⟩)
  exact List.count_eq_one_of_mem sound.closedOnce closed

/-- A process with descriptors 0 to 2, or without 0. -/
def processWith (first : Int) : World where
  fds number := if first ≤ number ∧ number < 3 then some number.toNat else none
  opened := 3

theorem processWith_initial (first : Int) (nonneg : 0 ≤ first) : (processWith first).Initial where
  own := rfl
  closed := rfl
  bindings _ := rfl
  distinct left right inst leftEntry rightEntry := by
    simp only [processWith, Option.ite_none_right_eq_some, Option.some.injEq] at leftEntry rightEntry
    omega
  bounded number inst entry := by
    simp only [processWith, Option.ite_none_right_eq_some, Option.some.injEq] at entry ⊢
    omega

/-- A file, opened by one binding and moved into another. -/
theorem closed_exactly_once_moved : ∃ final,
    Transition.run step (processWith 0) [.path 0 1 (some 3), .moveConstruct 1 0, .destroy 0, .destroy 1] = some final ∧
      (∀ inst, final.closed.count inst ≤ 1) ∧ final.closed = [3] := by
  refine ⟨_, rfl, (closed_exactly_once (processWith 0) _
    [.path 0 1 (some 3), .moveConstruct 1 0, .destroy 0, .destroy 1]
    (processWith_initial 0 (by decide)) ?_ rfl).2.1, rfl⟩
  refine (Transition.admits_cons rfl).mpr ⟨trivial, ?_⟩
  refine (Transition.admits_cons rfl).mpr ⟨?_, ?_⟩
  · intro other entry
    cases entry
    exact .inr (by decide)
  · refine (Transition.admits_cons rfl).mpr ⟨trivial, ?_⟩
    exact (Transition.admits_cons rfl).mpr ⟨trivial, trivial⟩

/-- Moving the default binding of stdout closes the process's own stdout; moving a file that
got number 0 leaks it; so does a pipe whose fcntl fails. -/
theorem not_closed_exactly_once :
    (∃ final, Transition.run step (processWith 0) [.inherit 0 1, .moveConstruct 1 0, .destroy 0, .destroy 1] =
        some final ∧ final.closed = [1] ∧ final.own = []) ∧
      (∃ final, Transition.run step (processWith 1) [.path 0 0 (some 0), .moveConstruct 1 0, .destroy 0, .destroy 1] =
        some final ∧ final.closed = [] ∧ final.own = [3]) ∧
      ∃ final, Transition.run step (processWith 0) [.pipe 0 1 3 4 false, .destroy 0] = some final ∧
        final.closed = [] ∧ final.own = [3] :=
  ⟨⟨_, rfl, rfl, rfl⟩, ⟨_, rfl, rfl, rfl⟩, ⟨_, rfl, rfl, rfl⟩⟩

end BoostProcess.V2.Stdio
