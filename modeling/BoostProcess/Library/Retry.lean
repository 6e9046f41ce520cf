import Mathlib.Data.List.Basic

/-! Loops that make a call again when it fails with certain errors.

The results of the calls are given in advance, and the loop uses as many of them as it makes
calls. If they run out, it has not been left yet.
-/

set_option autoImplicit false

namespace Retry

variable {Error Value Exit Note : Type}

/-- What the body of a loop does about an error: note something and try again, or leave. -/
inductive Reaction (Exit Note : Type) where
  | again (note : Option Note)
  | leave (exit : Exit)
  deriving DecidableEq

def Reaction.goesOn : Reaction Exit Note → Bool
  | again _ => true
  | leave _ => false

/-- How a loop is left: with a value, or by its body. -/
inductive Outcome (Value Exit : Type) where
  | value (value : Value)
  | exit (exit : Exit)
  deriving DecidableEq

structure Run (Error Value Exit Note : Type) where
  /-- The results of the calls that were made. -/
  calls : List (Except Error Value)
  outcome : Option (Outcome Value Exit)
  notes : List Note
  /-- The results that were not asked for. -/
  rest : List (Except Error Value)

def run (react : Error → Reaction Exit Note) : List (Except Error Value) → Run Error Value Exit Note
  | [] => ⟨[], none, [], []⟩
  | .ok value :: rest => ⟨[.ok value], some (.value value), [], rest⟩
  | .error err :: rest =>
    match react err with
    | .leave exit => ⟨[.error err], some (.exit exit), [], rest⟩
    | .again note =>
      let later := run react rest
      { later with calls := .error err :: later.calls, notes := note.toList ++ later.notes }

/-- The call that gives such an error is the last one, and the loop is left. -/
def Run.LeavesAt (run : Run Error Value Exit Note) (fatal : Error → Prop) : Prop :=
  ∀ front err behind, run.calls = front ++ .error err :: behind → fatal err → behind = [] ∧ run.outcome ≠ none

/-- The errors of some kind in front of the first other result. -/
def leadingErrors (kind : Error → Bool) : List (Except Error Value) → List Error
  | .error err :: rest => if kind err then err :: leadingErrors kind rest else []
  | _ => []

/-- The first success and the results behind it. -/
def firstSuccess : List (Except Error Value) → Option (Value × List (Except Error Value))
  | [] => none
  | .ok value :: rest => some (value, rest)
  | .error _ :: rest => firstSuccess rest

theorem kind_of_mem_leadingErrors {kind : Error → Bool} {results : List (Except Error Value)} {err : Error}
    (member : err ∈ leadingErrors kind results) : kind err = true := by
  induction results with
  | nil => simp [leadingErrors] at member
  | cons result rest ih =>
    cases result with
    | ok value => simp [leadingErrors] at member
    | error first =>
      by_cases here : kind first = true
      · rw [leadingErrors, if_pos here, List.mem_cons] at member
        rcases member with rfl | later
        · exact here
        · exact ih later
      · simp [leadingErrors, here] at member

variable {react : Error → Reaction Exit Note} {fatal : Error → Prop}

theorem calls_ne_nil {results : List (Except Error Value)} (left : (run react results).outcome ≠ none) :
    (run react results).calls ≠ [] := by
  cases results with
  | nil => exact absurd rfl left
  | cons result rest =>
    cases result with
    | ok value => exact List.cons_ne_nil _ _
    | error err => cases reaction : react err <;> simp [run, reaction]

theorem leavesAt_ok (value : Value) (rest : List (Except Error Value)) : (run react (.ok value :: rest)).LeavesAt fatal := by
  intro front err behind calls
  cases front with
  | nil => cases calls
  | cons first front => simp [run] at calls

theorem leavesAt_leave {err : Error} {exit : Exit} (reaction : react err = .leave exit) (rest : List (Except Error Value)) :
    (run react (.error err :: rest)).LeavesAt fatal := by
  intro front other behind calls _
  simp only [run, reaction] at calls ⊢
  cases front with
  | nil =>
    cases calls
    exact ⟨rfl, by simp⟩
  | cons first front => simp at calls

/-- Where the loop goes on, the error is not fatal: either the call is made again, or the loop
is not left. -/
theorem leavesAt_again_iff {err : Error} {note : Option Note} (reaction : react err = .again note)
    (rest : List (Except Error Value)) :
    (run react (.error err :: rest)).LeavesAt fatal ↔ ¬fatal err ∧ (run react rest).LeavesAt fatal := by
  have calls : (run react (.error err :: rest)).calls = .error err :: (run react rest).calls := by
    simp [run, reaction]
  have outcome : (run react (.error err :: rest)).outcome = (run react rest).outcome := by
    simp [run, reaction]
  constructor
  · intro leaves
    constructor
    · intro bad
      obtain ⟨last, left⟩ := leaves [] err _ calls bad
      rw [outcome] at left
      exact calls_ne_nil left last
    · intro front other behind split bad
      rw [← outcome]
      exact leaves (.error err :: front) other behind (by rw [calls, split, List.cons_append]) bad
  · rintro ⟨harmless, leaves⟩ front other behind split bad
    rw [calls] at split
    rw [outcome]
    cases front with
    | nil =>
      cases split
      exact absurd bad harmless
    | cons first front =>
      rw [List.cons_append, List.cons.injEq] at split
      exact leaves front other behind split.2 bad

/-- A loop is left at once by every fatal error exactly if it goes on for none that it meets. -/
theorem run_leavesAt_iff (results : List (Except Error Value)) :
    (run react results).LeavesAt fatal ↔ ∀ err ∈ leadingErrors (fun err => (react err).goesOn) results, ¬fatal err := by
  induction results with
  | nil => simp [run, Run.LeavesAt, leadingErrors]
  | cons result rest ih =>
    cases result with
    | ok value => exact iff_of_true (leavesAt_ok value rest) (by simp [leadingErrors])
    | error err =>
      cases reaction : react err with
      | leave exit =>
        exact iff_of_true (leavesAt_leave reaction rest) (by simp [leadingErrors, reaction, Reaction.goesOn])
      | again note =>
        have goes : (react err).goesOn = true := by
          rw [reaction]
          rfl
        rw [leavesAt_again_iff reaction, ih, leadingErrors, if_pos goes, List.forall_mem_cons]

/-- A loop that goes on for every error is left by the first success. -/
theorem run_of_goesOn (always : ∀ err, (react err).goesOn = true) (results : List (Except Error Value)) :
    ((run react results).outcome = none ∧ firstSuccess results = none) ∨
      ∃ value rest, (run react results).outcome = some (.value value) ∧ (run react results).rest = rest ∧
        firstSuccess results = some (value, rest) := by
  induction results with
  | nil => exact .inl ⟨rfl, rfl⟩
  | cons result rest ih =>
    cases result with
    | ok value => exact .inr ⟨value, rest, rfl, rfl, rfl⟩
    | error err =>
      cases reaction : react err with
      | leave exit =>
        have goes := always err
        rw [reaction] at goes
        cases goes
      | again note => simpa [run, reaction, firstSuccess] using ih

end Retry
