import BoostProcess.V1.PipeBuf.PutArea

/-! What sync, close and the destructor of basic_pipebuf get out of the put area.

Each of them writes once. What the pipe does not take stays in the put area, and is gone when
the pipe is closed behind it.
-/

set_option autoImplicit false

namespace BoostProcess.V1

open Posix (BasicPipe)
open Cells Transition

namespace PipeBuf

def closePipe (buf : PipeBuf) : PipeBuf := { buf with pipe := ⟨-1, -1⟩ }

/-- `close()`: whether it returns this. If the flush throws, the pipe is closed all the same. -/
def closeOnce (buf : PipeBuf) (written : Option Nat) : Option (Effect Bool) :=
  if buf.pipe.isOpen = false then some ⟨some false, buf, [], []⟩
  else (buf.overflowOnce eof written).map fun effect =>
    ⟨effect.result.map fun _ => true, effect.buf.closePipe, effect.handed, effect.stored⟩

/-- `~basic_pipebuf()`, which lets no exception out, and the destructor of the pipe. -/
def destroy (buf : PipeBuf) (written : Option Nat) : Option (Effect Unit) :=
  if buf.pipe.isOpen = true then (buf.overflowOnce eof written).map fun effect =>
    ⟨some (), effect.buf.closePipe, effect.handed, effect.stored⟩
  else some ⟨some (), buf.closePipe, [], []⟩

/-- `_write_impl` comes to a write. -/
def Writes (buf : PipeBuf) : Prop := buf.pipe.isOpen = true ∧ buf.pbase < buf.pptr

end PipeBuf

namespace Output

/-- sync leaves nothing in the put area when it returns 0. -/
def SyncEmpties (output : Output) (written : Option Nat) : Prop :=
  ∀ effect, output.buf.syncOnce written = some effect → effect.result = some 0 → effect.buf.pending = []

/-- The pipe has got every accepted character when a call that closes it is over, unless its
write fails. -/
def Delivers {Result : Type} (output : Output) (written : Option Nat)
    (call : PipeBuf → Option Nat → Option (PipeBuf.Effect Result)) : Prop :=
  output.buf.pipe.isOpen = true → ¬(output.buf.Writes ∧ written = none) →
    ∀ effect, call output.buf written = some effect → output.handed ++ effect.handed = output.accepted

/-- The one write takes all of the put area, unless it fails. -/
def TakesAll (output : Output) (written : Option Nat) : Prop :=
  output.buf.Writes → ∀ wrt, written = some wrt → wrt = output.buf.pptr - output.buf.pbase

end Output

namespace PipeBuf

theorem pending_length {buf : PipeBuf} (area : buf.PutArea) : buf.pending.length = buf.pptr - buf.pbase := by
  apply window_length
  rw [← area.size]
  exact area.upper

theorem pending_eq_nil_iff {buf : PipeBuf} (area : buf.PutArea) : buf.pending = [] ↔ buf.pbase = buf.pptr := by
  have lower := area.lower
  rw [← List.length_eq_zero_iff, pending_length area]
  omega

/-- One write: what the pipe got and what is left are what was pending, and nothing is left
exactly if it takes all. -/
theorem writeOnce_pending {buf : PipeBuf} {written : Option Nat} {effect : Effect Bool} (area : buf.PutArea)
    (returned : buf.writeOnce written = some effect) :
    effect.handed ++ effect.buf.pending = buf.pending ∧
      (effect.result = some true → (effect.buf.pending = [] ↔
        (buf.Writes → ∀ wrt, written = some wrt → wrt = buf.pptr - buf.pbase))) := by
  have lower := area.lower
  rcases writeOnce_cases lower returned with ⟨rfl, idle⟩ | ⟨isOpen, pending, rfl, rfl⟩ | ⟨isOpen, pending, wrt, rfl, most, rfl⟩
  · refine ⟨rfl, fun opened => ?_⟩
    have empty : buf.pbase = buf.pptr := idle.resolve_left (by simp [Option.some.inj opened])
    refine iff_of_true ((pending_eq_nil_iff area).mpr empty) ?_
    exact fun writes => absurd empty (Nat.ne_of_lt writes.2)
  · exact ⟨rfl, nofun⟩
  · refine ⟨(area.moved most).2, fun _ => ?_⟩
    rw [pending_eq_nil_iff (area.moved most).1]
    constructor
    · intro empty _ taken same
      cases same
      change buf.pbase = buf.pptr - wrt at empty
      omega
    · intro all
      have whole := all ⟨isOpen, pending⟩ wrt rfl
      exact (by omega : buf.pbase = buf.pptr - wrt)

/-- `overflow(eof)` is a write whose result is ignored. -/
theorem overflowOnce_eof (buf : PipeBuf) (written : Option Nat) :
    buf.overflowOnce eof written = (buf.writeOnce written).map fun effect => effect.map fun _ => eof := by
  rw [overflowOnce, if_neg (fun accepts => accepts.2 rfl), if_pos rfl, syncOnce, Option.map_map]
  congr 1
  funext effect
  simp [Effect.map, Function.comp_def]

theorem writeOnce_returns {buf : PipeBuf} {written : Option Nat}
    (range : buf.Writes → ∀ wrt, written = some wrt → wrt ≤ buf.pptr - buf.pbase) (lower : buf.pbase ≤ buf.pptr) :
    ∃ effect, buf.writeOnce written = some effect := by
  unfold writeOnce
  split
  · exact ⟨_, rfl⟩
  · rename_i isOpen
    split
    · exact ⟨_, rfl⟩
    · rename_i apart
      cases written with
      | none => exact ⟨_, rfl⟩
      | some wrt =>
        have most := range ⟨by simpa using isOpen, Nat.lt_of_le_of_ne lower apart⟩ wrt rfl
        dsimp only
        rw [if_neg (Nat.not_lt.mpr most)]
        split
        · exact ⟨_, rfl⟩
        · split
          · exact ⟨_, rfl⟩
          · exact ⟨_, rfl⟩

/-- While the pipe is open, a write that does not fail is reported as done. -/
theorem writeOnce_result {buf : PipeBuf} {written : Option Nat} {effect : Effect Bool} (area : buf.PutArea)
    (returned : buf.writeOnce written = some effect) (isOpen : buf.pipe.isOpen = true)
    (succeeds : ¬(buf.Writes ∧ written = none)) : effect.result = some true := by
  rcases writeOnce_cases area.lower returned with ⟨rfl, -⟩ | ⟨isOpen, pending, rfl, -⟩ | ⟨-, -, wrt, -, -, rfl⟩
  · rw [isOpen]
  · exact absurd ⟨⟨isOpen, pending⟩, rfl⟩ succeeds
  · rfl

end PipeBuf

namespace Output

/-- A call that writes once before it closes the pipe delivers everything exactly if the write
takes all. -/
theorem delivers_iff {Result : Type} {output : Output} (conserved : output.Conserved) {written : Option Nat}
    (range : output.buf.Writes → ∀ wrt, written = some wrt → wrt ≤ output.buf.pptr - output.buf.pbase)
    {call : PipeBuf → Option Nat → Option (PipeBuf.Effect Result)}
    (writes : output.buf.pipe.isOpen = true → ∀ tried, output.buf.writeOnce written = some tried →
      ∃ effect, call output.buf written = some effect ∧ effect.handed = tried.handed) :
    output.Delivers written call ↔ output.TakesAll written := by
  obtain ⟨tried, attempt⟩ := PipeBuf.writeOnce_returns range conserved.area.lower
  obtain ⟨kept, emptied⟩ := PipeBuf.writeOnce_pending conserved.area attempt
  constructor
  · intro delivers busy wrt took
    have succeeds : ¬(output.buf.Writes ∧ written = none) := by simp [took]
    obtain ⟨effect, returned, handed⟩ := writes busy.1 tried attempt
    have total := delivers busy.1 succeeds effect returned
    -- what was handed over is all that was pending
    rw [handed, ← conserved.total, List.append_cancel_left_eq, ← kept, List.self_eq_append_right] at total
    exact (emptied (PipeBuf.writeOnce_result conserved.area attempt busy.1 succeeds)).mp total busy wrt took
  · intro all isOpen succeeds effect returned
    obtain ⟨same, again, handed⟩ := writes isOpen tried attempt
    rw [returned, Option.some_inj] at again
    subst again
    have empty := (emptied (PipeBuf.writeOnce_result conserved.area attempt isOpen succeeds)).mpr all
    rw [handed, ← conserved.total, ← kept, empty, List.append_nil]

theorem syncEmpties_iff {output : Output} (conserved : output.Conserved) {written : Option Nat}
    (range : output.buf.Writes → ∀ wrt, written = some wrt → wrt ≤ output.buf.pptr - output.buf.pbase) :
    output.SyncEmpties written ↔ output.TakesAll written := by
  obtain ⟨tried, attempt⟩ := PipeBuf.writeOnce_returns range conserved.area.lower
  have emptied := (PipeBuf.writeOnce_pending conserved.area attempt).2
  have synced : output.buf.syncOnce written = some (tried.map fun wr => if wr then 0 else -1) := by
    rw [PipeBuf.syncOnce, attempt, Option.map_some]
  constructor
  · intro empties busy wrt took
    have done := PipeBuf.writeOnce_result conserved.area attempt busy.1 (by simp [took])
    have empty := empties _ synced (by simp [PipeBuf.Effect.map, done])
    exact (emptied done).mp empty busy wrt took
  · intro all effect returned zero
    rw [synced, Option.some_inj] at returned
    subst returned
    apply (emptied _).mpr all
    cases outcome : tried.result with
    | none => simp [PipeBuf.Effect.map, outcome] at zero
    | some wr => cases wr <;> simp_all [PipeBuf.Effect.map]

/-- Whatever is in the put area: sync empties it and both ways of closing the pipe deliver it
exactly if the one write takes all of it, and otherwise none of the three does. -/
theorem flushed_iff_takesAll {output : Output} (conserved : output.Conserved) {written : Option Nat}
    (range : output.buf.Writes → ∀ wrt, written = some wrt → wrt ≤ output.buf.pptr - output.buf.pbase) :
    (output.SyncEmpties written ∧ output.Delivers written PipeBuf.closeOnce ∧ output.Delivers written PipeBuf.destroy ↔
      output.TakesAll written) ∧
    (¬output.TakesAll written → ¬output.SyncEmpties written ∧ ¬output.Delivers written PipeBuf.closeOnce ∧
      ¬output.Delivers written PipeBuf.destroy) := by
  have sync := syncEmpties_iff conserved range
  have close : output.Delivers written PipeBuf.closeOnce ↔ output.TakesAll written := by
    apply delivers_iff conserved range
    intro isOpen tried attempt
    rw [PipeBuf.closeOnce, if_neg (by simp [isOpen]), PipeBuf.overflowOnce_eof, attempt]
    exact ⟨_, rfl, rfl⟩
  have destroy : output.Delivers written PipeBuf.destroy ↔ output.TakesAll written := by
    apply delivers_iff conserved range
    intro isOpen tried attempt
    rw [PipeBuf.destroy, if_pos isOpen, PipeBuf.overflowOnce_eof, attempt]
    exact ⟨_, rfl, rfl⟩
  rw [sync, close, destroy]
  exact ⟨by simp, fun partly => ⟨partly, partly, partly⟩⟩

/-- Two characters that are waiting in the put area. -/
theorem two_waiting :
    ∃ output : Output, output.Conserved ∧ output.buf.Writes ∧ output.buf.pptr - output.buf.pbase = 2 := by
  refine ⟨_, run_invariant preserves_conserved (conserved_start ⟨3, 4⟩) admits_true
    (rfl : run step (start ⟨3, 4⟩) [(.sputc 97, []), (.sputc 98, [])] = some _), ⟨rfl, ?_⟩, rfl⟩
  exact (by decide : 0 < 2)

theorem flushed_iff_takesAll_two :
    ∃ output : Output, (output.SyncEmpties (some 2) ∧ output.Delivers (some 2) PipeBuf.closeOnce ∧
      output.Delivers (some 2) PipeBuf.destroy ↔ output.TakesAll (some 2)) ∧ output.TakesAll (some 2) := by
  obtain ⟨output, conserved, busy, size⟩ := two_waiting
  refine ⟨output, (@flushed_iff_takesAll output conserved (some 2) ?_).1, ?_⟩
  · intro _ wrt took
    cases took
    omega
  · intro _ wrt took
    cases took
    omega

/-- The pipe takes the first of the two, and all three lose the second one. -/
theorem not_flushed_short :
    ¬∀ (output : Output) (wrt : Nat), output.Conserved → 1 ≤ wrt → wrt ≤ output.buf.pptr - output.buf.pbase →
      output.SyncEmpties (some wrt) ∧ output.Delivers (some wrt) PipeBuf.closeOnce ∧
        output.Delivers (some wrt) PipeBuf.destroy := by
  intro holds
  obtain ⟨output, conserved, busy, size⟩ := two_waiting
  have flushed := (holds output 1 conserved (Nat.le_refl 1) (by omega)).1
  have all := (@syncEmpties_iff output conserved (some 1) (by intro _ wrt took; cases took; omega)).mp flushed
  have whole := all busy 1 rfl
  omega

end Output
end BoostProcess.V1
