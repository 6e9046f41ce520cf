import BoostProcess.Library.Custody
import Mathlib.Data.List.Nodup

/-! A ledger of resources: who holds what, and in which way what is no longer held has ended.

A resource comes to one holder, may be passed on, and ends once.
-/

set_option autoImplicit false

open Custody

structure Ledger (Holder Resource Way : Type) where
  held : Holder → Option Resource
  /-- What has come to a holder. -/
  acquired : List Resource
  /-- What has ended, the last one first. -/
  ended : List (Way × Resource)

namespace Ledger

variable {Holder Resource Way : Type} [DecidableEq Holder]

def empty : Ledger Holder Resource Way := ⟨fun _ => none, [], []⟩

def acquire (ledger : Ledger Holder Resource Way) (holder : Holder) (resource : Resource) : Ledger Holder Resource Way :=
  { ledger with held := Custody.acquire ledger.held holder resource, acquired := resource :: ledger.acquired }

/-- What the holder holds ends in this way. -/
def finish (ledger : Ledger Holder Resource Way) (holder : Holder) (way : Way) : Ledger Holder Resource Way :=
  { ledger with
    held := release ledger.held holder
    ended := (ledger.held holder).toList.map (way, ·) ++ ledger.ended }

def give (ledger : Ledger Holder Resource Way) (source target : Holder) : Ledger Holder Resource Way :=
  { ledger with held := transfer ledger.held source target }

def Ended (ledger : Ledger Holder Resource Way) (resource : Resource) : Prop := ∃ way, (way, resource) ∈ ledger.ended

structure Sound (ledger : Ledger Holder Resource Way) : Prop where
  exclusive : Exclusive ledger.held
  kept : ∀ resource, Held ledger.held resource ↔ resource ∈ ledger.acquired ∧ ¬ ledger.Ended resource
  own : ∀ resource, ledger.Ended resource → resource ∈ ledger.acquired
  once : (ledger.ended.map Prod.snd).Nodup

/-- One holder, or one end. -/
inductive Fate [DecidableEq Resource] (ledger : Ledger Holder Resource Way) (resource : Resource) : Prop
  | held (holder : Holder) (here : ledger.held holder = some resource)
      (only : ∀ other, ledger.held other = some resource → other = holder) (lasting : ¬ ledger.Ended resource)
  | ended (way : Way) (here : (way, resource) ∈ ledger.ended) (once : (ledger.ended.map Prod.snd).count resource = 1)
      (gone : ¬ Held ledger.held resource)

variable {ledger : Ledger Holder Resource Way} {holder source target : Holder} {resource : Resource} {way : Way}

omit [DecidableEq Holder] in
theorem ended_iff : ledger.Ended resource ↔ resource ∈ ledger.ended.map Prod.snd := by
  unfold Ended
  rw [List.mem_map]
  constructor
  · rintro ⟨way, member⟩
    exact ⟨_, member, rfl⟩
  · rintro ⟨⟨way, _⟩, member, rfl⟩
    exact ⟨way, member⟩

theorem mem_ended_finish {before : Way} : (before, resource) ∈ (ledger.finish holder way).ended ↔
    (before = way ∧ ledger.held holder = some resource) ∨ (before, resource) ∈ ledger.ended := by
  unfold finish
  simp only [List.mem_append, List.mem_map, Option.mem_toList, Prod.mk.injEq]
  constructor
  · rintro (⟨_, here, rfl, rfl⟩ | old)
    · exact .inl ⟨rfl, here⟩
    · exact .inr old
  · rintro (⟨rfl, here⟩ | old)
    · exact .inl ⟨resource, here, rfl, rfl⟩
    · exact .inr old

theorem ended_finish :
    (ledger.finish holder way).Ended resource ↔ ledger.held holder = some resource ∨ ledger.Ended resource := by
  unfold Ended
  constructor
  · rintro ⟨before, member⟩
    exact (mem_ended_finish.mp member).imp And.right fun old => ⟨before, old⟩
  · rintro (here | ⟨before, member⟩)
    · exact ⟨way, mem_ended_finish.mpr (.inl ⟨rfl, here⟩)⟩
    · exact ⟨before, mem_ended_finish.mpr (.inr member)⟩

@[simp] theorem held_finish (other : Holder) :
    (ledger.finish holder way).held other = if other = holder then none else ledger.held other :=
  Function.update_apply ..

theorem held_give (other : Holder) : (ledger.give source target).held other =
    if other = source then none else if other = target then ledger.held source else ledger.held other := by
  unfold give transfer
  dsimp only
  rw [Function.update_apply, Function.update_apply]

omit [DecidableEq Holder] in
theorem sound_empty : (empty : Ledger Holder Resource Way).Sound where
  exclusive := nofun
  kept resource := by
    constructor
    · rintro ⟨_, here⟩
      cases here
    · rintro ⟨known, -⟩
      cases known
  own resource ended := by
    obtain ⟨_, member⟩ := ended
    cases member
  once := List.nodup_nil

namespace Sound

theorem acquire (sound : ledger.Sound) (vacant : ledger.held holder = none) (fresh : resource ∉ ledger.acquired) :
    (ledger.acquire holder resource).Sound where
  exclusive := exclusive_acquire sound.exclusive fun held => fresh ((sound.kept resource).mp held).1
  kept other := by
    have lasting : ¬ ledger.Ended resource := fun ended => fresh (sound.own resource ended)
    unfold Ledger.acquire
    rw [held_acquire_iff vacant, sound.kept, List.mem_cons]
    constructor
    · rintro (rfl | ⟨known, open'⟩)
      · exact ⟨.inl rfl, lasting⟩
      · exact ⟨.inr known, open'⟩
    · rintro ⟨rfl | known, open'⟩
      · exact .inl rfl
      · exact .inr ⟨known, open'⟩
  own other ended := List.mem_cons_of_mem resource (sound.own other ended)
  once := sound.once

theorem finish (sound : ledger.Sound) (holder : Holder) (way : Way) : (ledger.finish holder way).Sound where
  exclusive := exclusive_release sound.exclusive
  kept resource := by
    rw [ended_finish, not_or]
    refine (held_release_iff sound.exclusive).trans ?_
    rw [sound.kept, and_assoc]
    exact and_congr_right fun _ => and_comm
  own resource ended := by
    cases ended_finish.mp ended with
    | inl here => exact ((sound.kept resource).mp ⟨holder, here⟩).1
    | inr before => exact sound.own resource before
  once := by
    unfold Ledger.finish
    cases here : ledger.held holder with
    | none => exact sound.once
    | some resource =>
      apply List.nodup_cons.mpr
      refine ⟨fun member => ?_, sound.once⟩
      exact ((sound.kept resource).mp ⟨holder, here⟩).2 (ended_iff.mpr member)

theorem give (sound : ledger.Sound) (source : Holder) (vacant : ledger.held target = none) :
    (ledger.give source target).Sound where
  exclusive := exclusive_transfer sound.exclusive
  kept resource := by
    apply Iff.trans _ (sound.kept resource)
    unfold Ledger.give
    by_cases same : source = target
    · rw [same, transfer_self, held_release_iff sound.exclusive, vacant]
      exact and_iff_left nofun
    · rw [held_transfer_iff sound.exclusive same, vacant]
      exact and_iff_left nofun
  own := sound.own
  once := sound.once

omit [DecidableEq Holder] in
theorem fate [DecidableEq Resource] (sound : ledger.Sound) (known : resource ∈ ledger.acquired) : ledger.Fate resource := by
  by_cases ended : ledger.Ended resource
  · obtain ⟨way, here⟩ := ended
    refine .ended way here ?_ fun held => ((sound.kept resource).mp held).2 ⟨way, here⟩
    exact List.count_eq_one_of_mem sound.once (ended_iff.mp ⟨way, here⟩)
  · obtain ⟨holder, here⟩ := (sound.kept resource).mpr ⟨known, ended⟩
    exact .held holder here (fun other also => sound.exclusive other holder resource also here) ended

omit [DecidableEq Holder] in
theorem not_ended (sound : ledger.Sound) (here : ledger.held holder = some resource) : ¬ ledger.Ended resource :=
  ((sound.kept resource).mp ⟨holder, here⟩).2

omit [DecidableEq Holder] in
theorem known (sound : ledger.Sound) (here : ledger.held holder = some resource) : resource ∈ ledger.acquired :=
  ((sound.kept resource).mp ⟨holder, here⟩).1

end Sound
end Ledger
