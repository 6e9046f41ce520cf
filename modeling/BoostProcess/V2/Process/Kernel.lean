import BoostProcess.V2.Process.Handle

/-! Numbers and identities: every process lives under one number, and a child whose
status was collected lives under none. -/

set_option autoImplicit false

namespace BoostProcess.V2.Process

structure Sys.Consistent (sys : Sys) : Prop where
  bounded : ∀ pid proc, sys.procs pid = some proc → proc.child < sys.births
  distinct : ∀ first second left right, sys.procs first = some left → sys.procs second = some right →
    left.child = right.child → first = second
  collectedBounded : ∀ child, sys.Collected child → child < sys.births
  gone : ∀ child, sys.Collected child → ∀ pid proc, sys.procs pid = some proc → proc.child ≠ child

/-- No call is made for a child after its status was collected. -/
def Sys.NoStale (sys : Sys) : Prop :=
  sys.log.Pairwise fun later earlier => ∀ child status, earlier.reaped = some (child, status) → later.meant ≠ some child

/-- waitpid reported this status of the child. -/
def Sys.Reported (sys : Sys) (child : Nat) (status : Int) : Prop :=
  ∃ syscall ∈ sys.log, syscall.reaped = some (child, status)

/-- The child that the handle was made for is under its number, not collected yet. -/
def Live (sys : Sys) (handle : Handle) : Prop :=
  ∃ child exited, handle.child = some child ∧ sys.procs handle.pid = some ⟨child, true, exited⟩

variable {handle : Handle} {sys final : Sys}

namespace Effect

theorem births {collected : Option ExitStatus} (effect : Effect handle sys final collected) :
    final.births = sys.births := by
  cases effect with
  | quiet => rfl
  | collected => rfl

theorem grows {collected : Option ExitStatus} (effect : Effect handle sys final collected) {syscall : Syscall}
    (member : syscall ∈ sys.log) : syscall ∈ final.log := by
  cases effect with
  | quiet calls ours => exact List.mem_append_right calls member
  | collected calls ours valid child exited status there =>
    exact List.mem_cons_of_mem _ (List.mem_append_right calls member)

theorem quietly (effect : Effect handle sys final none) :
    final.procs = sys.procs ∧ ∀ child, final.Collected child ↔ sys.Collected child := by
  cases effect with
  | quiet calls ours =>
    refine ⟨rfl, fun child => ⟨?_, ?_⟩⟩
    · rintro ⟨syscall, member, status, reaped⟩
      rcases List.mem_append.mp member with ourCall | earlier
      · rw [(ours syscall ourCall).2.2] at reaped
        cases reaped
      · exact ⟨syscall, earlier, status, reaped⟩
    · rintro ⟨syscall, member, status, reaped⟩
      exact ⟨syscall, List.mem_append_right calls member, status, reaped⟩

theorem collecting {status : ExitStatus} (effect : Effect handle sys final (some status)) :
    0 < handle.pid ∧ ∃ child exited, sys.procs handle.pid = some ⟨child, true, exited⟩ ∧
      final.procs = Function.update sys.procs handle.pid none ∧
      .waitpid handle.pid handle.child (some (child, status.status)) ∈ final.log ∧
      ∀ other, final.Collected other ↔ other = child ∨ sys.Collected other := by
  cases effect with
  | collected calls ours valid child exited status there =>
    refine ⟨valid, child, exited, there, rfl, List.mem_cons_self, fun other => ⟨?_, ?_⟩⟩
    · rintro ⟨syscall, member, reported, reaped⟩
      rcases List.mem_cons.mp member with rfl | member
      · exact .inl (Prod.mk.inj (Option.some.inj reaped)).1.symm
      · rcases List.mem_append.mp member with ourCall | earlier
        · rw [(ours syscall ourCall).2.2] at reaped
          cases reaped
        · exact .inr ⟨syscall, earlier, reported, reaped⟩
    · rintro (rfl | ⟨syscall, member, reported, reaped⟩)
      · exact ⟨_, List.mem_cons_self, status.status, rfl⟩
      · exact ⟨syscall, List.mem_cons_of_mem _ (List.mem_append_right calls member), reported, reaped⟩

theorem noStale {collected : Option ExitStatus} (effect : Effect handle sys final collected) (noStale : sys.NoStale)
    (fresh : 0 < handle.pid → ∀ child, handle.child = some child → ¬ sys.Collected child) : final.NoStale := by
  -- the calls of one operation do not make each other stale
  have quiet (calls : List Syscall) (ours : ∀ syscall ∈ calls, Quiet handle syscall) :
      (calls ++ sys.log).Pairwise fun later earlier =>
        ∀ child status, earlier.reaped = some (child, status) → later.meant ≠ some child := by
    apply List.pairwise_append.mpr
    refine ⟨?_, noStale, ?_⟩
    · apply List.pairwise_of_forall_mem_list
      intro later ourCall earlier other child status reaped
      rw [(ours earlier other).2.2] at reaped
      cases reaped
    · intro later ourCall earlier member child status reaped meant
      rw [(ours later ourCall).2.1] at meant
      exact fresh (ours later ourCall).1 child meant ⟨earlier, member, status, reaped⟩
  cases effect with
  | quiet calls ours => exact quiet calls ours
  | collected calls ours valid child exited status there =>
    apply List.pairwise_cons.mpr
    refine ⟨?_, quiet calls ours⟩
    intro earlier member other reported reaped meant
    rcases List.mem_append.mp member with ourCall | before
    · rw [(ours earlier ourCall).2.2] at reaped
      cases reaped
    · exact fresh valid other meant ⟨earlier, before, reported, reaped⟩

end Effect

theorem Sys.Reported.mono {child : Nat} {status : Int} (reported : sys.Reported child status)
    (grows : ∀ syscall ∈ sys.log, syscall ∈ final.log) : final.Reported child status := by
  obtain ⟨syscall, member, reaped⟩ := reported
  exact ⟨syscall, grows syscall member, reaped⟩

theorem Live.fresh (live : Live sys handle) (consistent : sys.Consistent) {child : Nat}
    (meant : handle.child = some child) : ¬ sys.Collected child := by
  obtain ⟨here, exited, same, there⟩ := live
  intro collected
  rw [meant] at same
  cases same
  exact consistent.gone child collected handle.pid _ there rfl

/-- A child that lives on keeps its number while another number changes. -/
theorem Live.update (live : Live sys handle) {pid : Int} {value : Option Proc} (elsewhere : handle.pid ≠ pid)
    (same : final.procs = Function.update sys.procs pid value) : Live final handle := by
  obtain ⟨child, exited, meant, there⟩ := live
  refine ⟨child, exited, meant, ?_⟩
  rw [same, Function.update_of_ne elsewhere]
  exact there

theorem Live.spawn {pid : Int} (live : Live sys handle) (free : sys.Free pid) (own : Bool) :
    Live (sys.spawn pid own) handle := by
  apply live.update _ rfl
  rintro rfl
  obtain ⟨child, exited, -, there⟩ := live
  rw [free.2] at there
  cases there

theorem Live.ended {pid : Int} {child : Nat} (live : Live sys handle) (there : sys.procs pid = some ⟨child, true, none⟩)
    (status : ExitStatus) : Live (sys.ended pid child status) handle := by
  by_cases same : handle.pid = pid
  · obtain ⟨here, exited, meant, entry⟩ := live
    rw [same, there] at entry
    cases entry
    exact ⟨child, some status, meant, by simp [Sys.ended, same]⟩
  · exact live.update same rfl

/-- What waitpid does not know may go. -/
theorem Live.remove {pid : Int} (live : Live sys handle)
    (foreign : ∀ proc, sys.procs pid = some proc → proc.own = false) : Live (sys.remove pid) handle := by
  apply live.update _ rfl
  rintro rfl
  obtain ⟨child, exited, -, there⟩ := live
  cases foreign _ there

namespace Sys

/-- Numbers are given up, or keep the process that they had. -/
theorem Consistent.shrink (consistent : sys.Consistent) (births : final.births = sys.births)
    (collected : ∀ child, final.Collected child ↔ sys.Collected child)
    (kept : ∀ pid proc, final.procs pid = some proc → ∃ before, sys.procs pid = some before ∧ before.child = proc.child) :
    final.Consistent where
  bounded pid proc there := by
    obtain ⟨before, entry, same⟩ := kept pid proc there
    rw [births, ← same]
    exact consistent.bounded pid before entry
  distinct first second left right leftEntry rightEntry same := by
    obtain ⟨leftBefore, leftBeforeEntry, leftSame⟩ := kept first left leftEntry
    obtain ⟨rightBefore, rightBeforeEntry, rightSame⟩ := kept second right rightEntry
    apply consistent.distinct first second leftBefore rightBefore leftBeforeEntry rightBeforeEntry
    rw [leftSame, rightSame, same]
  collectedBounded child gone := by
    rw [births]
    exact consistent.collectedBounded child ((collected child).mp gone)
  gone child gone pid proc there := by
    obtain ⟨before, entry, same⟩ := kept pid proc there
    rw [← same]
    exact consistent.gone child ((collected child).mp gone) pid before entry

theorem Consistent.remove (consistent : sys.Consistent) (pid : Int) : (sys.remove pid).Consistent := by
  have kept (number : Int) (proc : Proc) (there : (sys.remove pid).procs number = some proc) :
      ∃ before, sys.procs number = some before ∧ before.child = proc.child := by
    simp only [Sys.remove, Function.update_apply] at there
    split at there
    · cases there
    · exact ⟨proc, there, rfl⟩
  exact consistent.shrink rfl (fun _ => Iff.rfl) kept

theorem Consistent.ended {pid : Int} {child : Nat} (consistent : sys.Consistent)
    (there : sys.procs pid = some ⟨child, true, none⟩) (status : ExitStatus) : (sys.ended pid child status).Consistent := by
  have kept (number : Int) (proc : Proc) (entry : (sys.ended pid child status).procs number = some proc) :
      ∃ before, sys.procs number = some before ∧ before.child = proc.child := by
    simp only [Sys.ended, Function.update_apply] at entry
    split at entry
    · rename_i here
      cases entry
      exact ⟨⟨child, true, none⟩, here ▸ there, rfl⟩
    · exact ⟨proc, entry, rfl⟩
  exact consistent.shrink rfl (fun _ => Iff.rfl) kept

theorem Consistent.spawn {pid : Int} (consistent : sys.Consistent) (own : Bool) : (sys.spawn pid own).Consistent where
  bounded number proc there := by
    simp only [Sys.spawn, Function.update_apply] at there ⊢
    split at there
    · cases there
      exact Nat.lt_succ_self _
    · exact Nat.lt_succ_of_lt (consistent.bounded number proc there)
  distinct first second left right leftEntry rightEntry same := by
    simp only [Sys.spawn, Function.update_apply] at leftEntry rightEntry
    split at leftEntry
    · rename_i here
      split at rightEntry
      · rename_i there
        rw [here, there]
      · cases leftEntry
        exact absurd same (Nat.ne_of_lt' (consistent.bounded second right rightEntry))
    · split at rightEntry
      · cases rightEntry
        exact absurd same (Nat.ne_of_lt (consistent.bounded first left leftEntry))
      · exact consistent.distinct first second left right leftEntry rightEntry same
  collectedBounded child collected := Nat.lt_succ_of_lt (consistent.collectedBounded child collected)
  gone child collected number proc there := by
    simp only [Sys.spawn, Function.update_apply] at there
    split at there
    · cases there
      exact Nat.ne_of_lt' (consistent.collectedBounded child collected)
    · exact consistent.gone child collected number proc there

theorem Consistent.effect {collected : Option ExitStatus} (consistent : sys.Consistent)
    (effect : Effect handle sys final collected) : final.Consistent := by
  cases collected with
  | none =>
    -- nothing was collected: every number keeps its process
    obtain ⟨procs, same⟩ := effect.quietly
    apply consistent.shrink effect.births same
    intro pid proc there
    rw [procs] at there
    exact ⟨proc, there, rfl⟩
  | some status =>
    -- one number is freed, and the child that had it joins the collected
    obtain ⟨-, child, exited, there, procs, -, grown⟩ := effect.collecting
    have kept (pid : Int) (proc : Proc) (entry : final.procs pid = some proc) :
        pid ≠ handle.pid ∧ sys.procs pid = some proc := by
      rw [procs, Function.update_apply] at entry
      split at entry
      · cases entry
      · rename_i elsewhere
        exact ⟨elsewhere, entry⟩
    refine ⟨?_, ?_, ?_, ?_⟩
    · intro pid proc entry
      rw [effect.births]
      exact consistent.bounded pid proc (kept pid proc entry).2
    · intro first second left right leftEntry rightEntry
      exact consistent.distinct first second left right (kept first left leftEntry).2 (kept second right rightEntry).2
    · intro other gone
      rw [effect.births]
      rcases (grown other).mp gone with rfl | before
      · exact consistent.bounded handle.pid _ there
      · exact consistent.collectedBounded other before
    · intro other gone pid proc entry
      rcases (grown other).mp gone with rfl | before
      · intro same
        exact (kept pid proc entry).1 (consistent.distinct pid handle.pid proc _ (kept pid proc entry).2 there same)
      · exact consistent.gone other before pid proc (kept pid proc entry).2

end Sys

end BoostProcess.V2.Process
