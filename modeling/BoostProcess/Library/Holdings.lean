import BoostProcess.Library.Custody
import Mathlib.Data.List.Nodup
import Mathlib.Logic.Equiv.Defs

/-! Holders of descriptor numbers, of which -1 is none.

Numbers are reused, so every open is an instance of its own. A holder has the instance that is
open at its number. What holders have opened or taken over is theirs until one of them closes it.
-/

set_option autoImplicit false

open Custody

structure Holdings (Holder : Type) where
  /-- The open instance at each number. -/
  fds : Int → Option Nat
  /-- How many instances have been opened. -/
  opened : Nat
  /-- Instances that came to a holder. -/
  own : List Nat
  /-- Instances that a holder closed, the last one first. -/
  closed : List Nat
  held : Holder → Int

namespace Holdings

variable {Holder : Type} [DecidableEq Holder]

def custody (holdings : Holdings Holder) (holder : Holder) : Option Nat := holdings.fds (holdings.held holder)

/-- A number that can be handed out. -/
def Free (holdings : Holdings Holder) (number : Int) : Prop := 0 ≤ number ∧ holdings.fds number = none

def openAt (holdings : Holdings Holder) (number : Int) : Holdings Holder :=
  { holdings with fds := Function.update holdings.fds number (some holdings.opened), opened := holdings.opened + 1 }

/-- A holder takes over what is open at a number. -/
def hold (holdings : Holdings Holder) (holder : Holder) (number : Int) (inst : Nat) : Holdings Holder :=
  { holdings with own := inst :: holdings.own, held := Function.update holdings.held holder number }

/-- A holder opens a descriptor. -/
def acquire (holdings : Holdings Holder) (holder : Holder) (number : Int) : Holdings Holder :=
  (holdings.openAt number).hold holder number holdings.opened

/-- A holder closes its number and forgets it. -/
def release (holdings : Holdings Holder) (holder : Holder) : Holdings Holder :=
  { holdings with
    fds := Function.update holdings.fds (holdings.held holder) none
    closed := (holdings.custody holder).toList ++ holdings.closed
    held := Function.update holdings.held holder (-1) }

/-- Holders exchange their numbers. -/
def permute (holdings : Holdings Holder) (moved : Equiv.Perm Holder) : Holdings Holder :=
  { holdings with held := holdings.held ∘ moved }

structure Sound (holdings : Holdings Holder) : Prop where
  exclusive : Exclusive holdings.custody
  kept : ∀ inst, Held holdings.custody inst ↔ inst ∈ holdings.own ∧ inst ∉ holdings.closed
  secured : ∀ holder, holdings.held holder = -1 ∨ holdings.fds (holdings.held holder) ≠ none
  closedOwn : ∀ inst ∈ holdings.closed, inst ∈ holdings.own
  closedOnce : holdings.closed.Nodup
  distinct : ∀ first second inst, holdings.fds first = some inst → holdings.fds second = some inst → first = second
  bounded : ∀ number inst, holdings.fds number = some inst → 0 ≤ number ∧ inst < holdings.opened
  ownBounded : ∀ inst ∈ holdings.own, inst < holdings.opened

namespace Sound

variable {holdings : Holdings Holder} {holder : Holder} {number : Int} {inst : Nat}

omit [DecidableEq Holder] in
theorem negative (sound : holdings.Sound) : holdings.fds (-1) = none := by
  cases entry : holdings.fds (-1) with
  | none => rfl
  | some inst =>
    have bounds := sound.bounded (-1) inst entry
    omega

omit [DecidableEq Holder] in
theorem custody_of_vacant (sound : holdings.Sound) (vacant : holdings.held holder = -1) :
    holdings.custody holder = none := by
  unfold custody
  rw [vacant]
  exact sound.negative

omit [DecidableEq Holder] in
theorem custody_openAt (sound : holdings.Sound) (free : holdings.Free number) :
    (holdings.openAt number).custody = holdings.custody := by
  funext holder
  apply Function.update_of_ne
  intro same
  have same : holdings.held holder = number := same
  cases sound.secured holder with
  | inl vacant =>
    have positive := free.1
    omega
  | inr taken =>
    rw [same] at taken
    exact taken free.2

omit [DecidableEq Holder] in
theorem openAt (sound : holdings.Sound) (free : holdings.Free number) : (holdings.openAt number).Sound where
  exclusive := by
    rw [custody_openAt sound free]
    exact sound.exclusive
  kept := by
    rw [custody_openAt sound free]
    exact sound.kept
  secured holder := by
    apply (sound.secured holder).imp_right
    intro taken
    have same := congrFun (custody_openAt sound free) holder
    unfold custody at same
    exact same ▸ taken
  closedOwn := sound.closedOwn
  closedOnce := sound.closedOnce
  distinct := by
    apply exclusive_acquire sound.distinct
    intro held
    obtain ⟨other, entry⟩ := held
    exact Nat.lt_irrefl _ (sound.bounded other _ entry).2
  bounded other inst entry := by
    simp only [Holdings.openAt, Function.update_apply] at entry
    split at entry
    · rename_i here
      cases entry
      exact ⟨here ▸ free.1, Nat.lt_succ_self _⟩
    · have old := sound.bounded other inst entry
      exact ⟨old.1, Nat.lt_succ_of_lt old.2⟩
  ownBounded inst member := Nat.lt_succ_of_lt (sound.ownBounded inst member)

theorem hold (sound : holdings.Sound) (vacant : holdings.held holder = -1) (there : holdings.fds number = some inst)
    (foreign : inst ∉ holdings.own) : (holdings.hold holder number inst).Sound := by
  have acquired : (holdings.hold holder number inst).custody = Custody.acquire holdings.custody holder inst := by
    funext other
    unfold custody Custody.acquire Holdings.hold
    by_cases same : other = holder
    · subst same
      simp only [Function.update_self]
      exact there
    · simp only [Function.update_of_ne same]
  have fresh : ¬ Held holdings.custody inst := fun held => foreign ((sound.kept inst).mp held).1
  constructor
  · rw [acquired]
    exact exclusive_acquire sound.exclusive fresh
  · intro other
    rw [acquired, held_acquire_iff (sound.custody_of_vacant vacant), sound.kept]
    simp only [Holdings.hold, List.mem_cons]
    constructor
    · intro held
      cases held with
      | inl new =>
        subst new
        exact ⟨.inl rfl, fun closed => foreign (sound.closedOwn other closed)⟩
      | inr old => exact ⟨.inr old.1, old.2⟩
    · intro held
      exact held.1.imp_right fun own => ⟨own, held.2⟩
  · intro other
    simp only [Holdings.hold, Function.update_apply]
    split
    · rw [there]
      exact .inr (Option.some_ne_none inst)
    · exact sound.secured other
  · exact fun other member => List.mem_cons_of_mem inst (sound.closedOwn other member)
  · exact sound.closedOnce
  · exact sound.distinct
  · exact sound.bounded
  · intro other member
    cases List.mem_cons.mp member with
    | inl new => exact new ▸ (sound.bounded number inst there).2
    | inr old => exact sound.ownBounded other old

theorem acquire (sound : holdings.Sound) (vacant : holdings.held holder = -1) (free : holdings.Free number) :
    (holdings.acquire holder number).Sound := by
  apply (sound.openAt free).hold vacant
  · exact Function.update_self ..
  · exact fun member => absurd (sound.ownBounded _ member) (Nat.lt_irrefl _)

theorem release (sound : holdings.Sound) (holder : Holder) : (holdings.release holder).Sound := by
  have released : (holdings.release holder).custody = Custody.release holdings.custody holder := by
    funext other
    unfold custody Custody.release Holdings.release
    by_cases same : other = holder
    · subst same
      simp only [Function.update_self, Function.update_apply, sound.negative]
      split <;> rfl
    · simp only [Function.update_of_ne same]
      by_cases shared : holdings.held other = holdings.held holder
      · -- only numbers that are none can be the same
        rw [shared, Function.update_self]
        cases entry : holdings.fds (holdings.held holder) with
        | none =>
          rw [← entry, ← shared]
        | some inst => exact absurd (sound.exclusive other holder inst (by rw [← entry, ← shared]; rfl) entry) same
      · rw [Function.update_of_ne shared]
  have mem_closed {inst : Nat} : inst ∈ (holdings.release holder).closed ↔
      holdings.custody holder = some inst ∨ inst ∈ holdings.closed := by
    unfold Holdings.release
    rw [List.mem_append, Option.mem_toList]
  constructor
  · rw [released]
    exact exclusive_release sound.exclusive
  · intro inst
    rw [released, held_release_iff sound.exclusive, sound.kept, mem_closed, not_or, and_assoc]
    exact and_congr_right fun _ => and_comm
  · intro other
    simp only [Holdings.release, Function.update_apply]
    by_cases same : other = holder
    · rw [if_pos same]
      exact .inl rfl
    · rw [if_neg same]
      apply (sound.secured other).imp_right
      intro taken
      split
      · rename_i shared
        -- then both would have what is open there
        obtain ⟨inst, entry⟩ := Option.ne_none_iff_exists'.mp taken
        exact absurd (sound.exclusive other holder inst entry (by unfold custody; rw [← shared]; exact entry)) same
      · exact taken
  · intro inst member
    cases mem_closed.mp member with
    | inl mine => exact ((sound.kept inst).mp ⟨holder, mine⟩).1
    | inr old => exact sound.closedOwn inst old
  · unfold Holdings.release
    cases mine : holdings.custody holder with
    | none => exact sound.closedOnce
    | some inst => exact List.nodup_cons.mpr ⟨((sound.kept inst).mp ⟨holder, mine⟩).2, sound.closedOnce⟩
  · exact exclusive_release sound.distinct
  · exact fun number inst entry => sound.bounded number inst (of_release entry)
  · exact sound.ownBounded

omit [DecidableEq Holder] in
theorem permute (sound : holdings.Sound) (moved : Equiv.Perm Holder) : (holdings.permute moved).Sound where
  exclusive first second inst left right := moved.injective (sound.exclusive _ _ inst left right)
  kept inst := by
    apply Iff.trans _ (sound.kept inst)
    constructor
    · intro held
      obtain ⟨holder, entry⟩ := held
      exact ⟨moved holder, entry⟩
    · intro held
      obtain ⟨holder, entry⟩ := held
      refine ⟨moved.symm holder, ?_⟩
      unfold custody Holdings.permute
      dsimp only [Function.comp_apply]
      rw [Equiv.apply_symm_apply]
      exact entry
  secured holder := sound.secured (moved holder)
  closedOwn := sound.closedOwn
  closedOnce := sound.closedOnce
  distinct := sound.distinct
  bounded := sound.bounded
  ownBounded := sound.ownBounded

omit [DecidableEq Holder] in
theorem closeForeign (sound : holdings.Sound) (there : holdings.fds number = some inst) (foreign : inst ∉ holdings.own) :
    Sound { holdings with fds := Function.update holdings.fds number none } := by
  have elsewhere (holder : Holder) : holdings.held holder ≠ number := by
    intro same
    have mine : holdings.custody holder = some inst := by
      unfold custody
      rw [same, there]
    exact foreign ((sound.kept inst).mp ⟨holder, mine⟩).1
  have unchanged : custody { holdings with fds := Function.update holdings.fds number none } = holdings.custody := by
    funext holder
    exact Function.update_of_ne (elsewhere holder) _ _
  constructor
  · rw [unchanged]
    exact sound.exclusive
  · rw [unchanged]
    exact sound.kept
  · intro holder
    apply (sound.secured holder).imp_right
    intro taken
    dsimp only
    rw [Function.update_of_ne (elsewhere holder)]
    exact taken
  · exact sound.closedOwn
  · exact sound.closedOnce
  · exact exclusive_release sound.distinct
  · exact fun other inst entry => sound.bounded other inst (of_release entry)
  · exact sound.ownBounded

omit [DecidableEq Holder] in
theorem existsUnique_holder (sound : holdings.Sound) (own : inst ∈ holdings.own) (unclosed : inst ∉ holdings.closed) :
    ∃! holder, holdings.custody holder = some inst := by
  obtain ⟨holder, entry⟩ := (sound.kept inst).mpr ⟨own, unclosed⟩
  exact ⟨holder, entry, fun other also => sound.exclusive other holder inst also entry⟩

omit [DecidableEq Holder] in
/-- Once no holder has a number, everything is closed, once. -/
theorem count_closed (sound : holdings.Sound) (gone : ∀ holder, holdings.held holder = -1) (own : inst ∈ holdings.own) :
    holdings.closed.count inst = 1 := by
  have closed : inst ∈ holdings.closed := by
    by_contra unclosed
    obtain ⟨holder, entry⟩ := (sound.kept inst).mpr ⟨own, unclosed⟩
    rw [sound.custody_of_vacant (gone holder)] at entry
    cases entry
  exact List.count_eq_one_of_mem sound.closedOnce closed

end Sound
end Holdings
