import Mathlib.Data.List.Basic
import Mathlib.Logic.Relation

/-! Guarded transition systems, the invariants of their runs and simulations.

A step is a partial function of the state and a label; a label whose guard
fails has no successor. Conditions are attached to single steps, so a property
of every reached state follows from one step at a time.
-/

set_option autoImplicit false

namespace Transition

variable {State Label : Type}

/-- Perform the labels in order. The run stops existing at the first refused label. -/
def run (step : State → Label → Option State) : State → List Label → Option State
  | state, [] => some state
  | state, label :: rest => (step state label).bind fun next => run step next rest

/-- Every performed label meets its condition in the state it is performed in. -/
def Admits (step : State → Label → Option State) (condition : State → Label → Prop) :
    State → List Label → Prop
  | _, [] => True
  | state, label :: rest =>
    condition state label ∧ ∀ next, step state label = some next → Admits step condition next rest

/-- Preservation of an invariant by the steps that meet a condition. -/
def Preserves (step : State → Label → Option State) (condition : State → Label → Prop)
    (invariant : State → Prop) : Prop :=
  ∀ state label next, invariant state → condition state label →
    step state label = some next → invariant next

variable {step : State → Label → Option State} {condition : State → Label → Prop}
  {invariant : State → Prop}

theorem run_cons {state final : State} {label : Label} {rest : List Label} :
    run step state (label :: rest) = some final ↔
      ∃ next, step state label = some next ∧ run step next rest = some final := by
  simp [run, Option.bind_eq_some_iff]

theorem run_append {state middle final : State} {front rest : List Label} (reached : run step state front = some middle)
    (later : run step middle rest = some final) : run step state (front ++ rest) = some final := by
  induction front generalizing state with
  | nil =>
    cases reached
    exact later
  | cons label front ih =>
    obtain ⟨next, taken, reached⟩ := run_cons.mp reached
    exact run_cons.mpr ⟨next, taken, ih reached⟩

/-- The condition along a run, one performed step at a time. -/
theorem admits_cons {state next : State} {label : Label} {rest : List Label} (taken : step state label = some next) :
    Admits step condition state (label :: rest) ↔ condition state label ∧ Admits step condition next rest := by
  simp [Admits, taken]

instance decidableAdmits [∀ state label, Decidable (condition state label)] :
    (state : State) → (labels : List Label) → Decidable (Admits step condition state labels)
  | _, [] => inferInstanceAs (Decidable True)
  | state, label :: rest =>
    match taken : step state label with
    | none => decidable_of_iff (condition state label) (by simp [Admits, taken])
    | some next =>
      have := decidableAdmits next rest
      decidable_of_iff (condition state label ∧ Admits step condition next rest) (admits_cons taken).symm

/-- The run rule: an invariant kept by every step that meets the condition holds
in the last state of every run whose steps all meet it. -/
theorem run_invariant (preserved : Preserves step condition invariant) {state final : State}
    {labels : List Label} (initial : invariant state)
    (admitted : Admits step condition state labels) (reached : run step state labels = some final) :
    invariant final := by
  induction labels generalizing state with
  | nil =>
    cases reached
    exact initial
  | cons label rest ih =>
    -- the condition is that of the state in which the label is performed
    obtain ⟨next, taken, rest'⟩ := run_cons.mp reached
    exact ih (preserved state label next initial admitted.1 taken) (admitted.2 next taken) rest'

theorem admits_true {state : State} {labels : List Label} :
    Admits step (fun _ _ => True) state labels := by
  induction labels generalizing state with
  | nil => trivial
  | cons label rest ih => exact ⟨trivial, fun _ _ => ih⟩

/-- The property holds in every state that a run passes through, its first and its last included. -/
def Always (step : State → Label → Option State) (property : State → Prop) : State → List Label → Prop
  | state, [] => property state
  | state, label :: rest => property state ∧ ∀ next, step state label = some next → Always step property next rest

/-- If the condition of a step says whether it keeps the property, then the conditions of a run
say whether it keeps the property all along. -/
theorem always_iff_admits {sound property : State → Prop}
    (kept : ∀ state label next, sound state → property state → step state label = some next → sound next)
    (decided : ∀ state label next, sound state → property state → step state label = some next →
      (property next ↔ condition state label))
    {state final : State} {labels : List Label} (initial : sound state) (holds : property state)
    (reached : run step state labels = some final) :
    Always step property state labels ↔ Admits step condition state labels := by
  induction labels generalizing state with
  | nil => exact iff_of_true holds trivial
  | cons label rest ih =>
    obtain ⟨next, taken, later⟩ := run_cons.mp reached
    have first := decided state label next initial holds taken
    have continued (safe : property next) := ih (kept state label next initial holds taken) safe later
    have next_holds (always : Always step property next rest) : property next := by
      cases rest with
      | nil => exact always
      | cons other rest => exact always.1
    rw [admits_cons taken]
    constructor
    · rintro ⟨-, always⟩
      have safe := next_holds (always next taken)
      exact ⟨first.mp safe, (continued safe).mp (always next taken)⟩
    · rintro ⟨met, admitted⟩
      refine ⟨holds, fun other same => ?_⟩
      rw [taken, Option.some_inj] at same
      subst same
      exact (continued (first.mpr met)).mpr admitted

/-- If the condition of a step says whether it keeps the property, and what has lost the property
never gets it back, then the conditions of a run say whether its last state has the property. -/
theorem last_iff_admits_of_sound {sound property : State → Prop} (preserved : Preserves step (fun _ _ => True) sound)
    (decided : ∀ state label next, sound state → property state → step state label = some next →
      (property next ↔ condition state label))
    (lost : ∀ state label next, sound state → ¬ property state → step state label = some next → ¬ property next)
    {state final : State} {labels : List Label} (initial : sound state) (holds : property state)
    (reached : run step state labels = some final) : property final ↔ Admits step condition state labels := by
  have stays {state : State} {labels : List Label} (initial : sound state) (fails : ¬ property state)
      (reached : run step state labels = some final) : ¬ property final := by
    induction labels generalizing state with
    | nil =>
      cases reached
      exact fails
    | cons label rest ih =>
      obtain ⟨next, taken, later⟩ := run_cons.mp reached
      exact ih (preserved state label next initial trivial taken) (lost state label next initial fails taken) later
  induction labels generalizing state with
  | nil =>
    cases reached
    exact iff_of_true holds trivial
  | cons label rest ih =>
    obtain ⟨next, taken, later⟩ := run_cons.mp reached
    have continued := preserved state label next initial trivial taken
    rw [admits_cons taken, ← decided state label next initial holds taken]
    by_cases kept : property next
    · exact (ih continued kept later).trans (and_iff_right kept).symm
    · exact iff_of_false (stays continued kept later) fun both => kept both.1

theorem last_iff_admits {property : State → Prop}
    (decided : ∀ state label next, property state → step state label = some next → (property next ↔ condition state label))
    (lost : ∀ state label next, ¬ property state → step state label = some next → ¬ property next)
    {state final : State} {labels : List Label} (holds : property state) (reached : run step state labels = some final) :
    property final ↔ Admits step condition state labels :=
  have always : Preserves step (fun _ _ => True) (fun _ => True) := fun _ _ _ _ _ _ => trivial
  last_iff_admits_of_sound always (fun state label next _ => decided state label next)
    (fun state label next _ => lost state label next)
    trivial holds reached

/-! ## Simulation -/

/-- A step that meets the condition, whatever its label. -/
def Moves (step : State → Label → Option State) (condition : State → Label → Prop) (before after : State) : Prop :=
  ∃ label, condition before label ∧ step before label = some after

def Reaches (step : State → Label → Option State) (condition : State → Label → Prop) : State → State → Prop :=
  Relation.ReflTransGen (Moves step condition)

theorem Reaches.refl (state : State) : Reaches step condition state state := Relation.ReflTransGen.refl

theorem Reaches.of_eq {before after : State} (same : after = before) : Reaches step condition before after :=
  same ▸ Relation.ReflTransGen.refl

theorem Reaches.single {before after : State} (label : Label) (met : condition before label)
    (taken : step before label = some after) : Reaches step condition before after :=
  Relation.ReflTransGen.single ⟨label, met, taken⟩

theorem Reaches.trans {before middle after : State} (first : Reaches step condition before middle)
    (second : Reaches step condition middle after) : Reaches step condition before after :=
  Relation.ReflTransGen.trans first second

/-- What is reached is reached by a run whose steps all meet the condition. -/
theorem reaches_iff_run {before after : State} :
    Reaches step condition before after ↔
      ∃ labels, Admits step condition before labels ∧ run step before labels = some after := by
  constructor
  · intro reached
    induction reached using Relation.ReflTransGen.head_induction_on with
    | refl => exact ⟨[], trivial, rfl⟩
    | head moved _ ih =>
      obtain ⟨label, met, taken⟩ := moved
      obtain ⟨labels, admitted, reached⟩ := ih
      exact ⟨label :: labels, (admits_cons taken).mpr ⟨met, admitted⟩, run_cons.mpr ⟨_, taken, reached⟩⟩
  · rintro ⟨labels, admitted, reached⟩
    induction labels generalizing before with
    | nil =>
      cases reached
      exact .refl _
    | cons label rest ih =>
      obtain ⟨next, taken, reached⟩ := run_cons.mp reached
      exact (Reaches.single label admitted.1 taken).trans (ih (admitted.2 next taken) reached)

/-- The simulation rule: if every step from a state of the invariant is matched by steps
between the projected states, then so is every run. -/
theorem run_matched {Concrete Event : Type} {concrete : Concrete → Event → Option Concrete} {sound : Concrete → Prop}
    {project : Concrete → State} (preserved : Preserves concrete (fun _ _ => True) sound)
    (matched : ∀ state event next, sound state → concrete state event = some next →
      Reaches step condition (project state) (project next))
    {state final : Concrete} {events : List Event} (initial : sound state) (reached : run concrete state events = some final) :
    Reaches step condition (project state) (project final) := by
  induction events generalizing state with
  | nil =>
    cases reached
    exact .refl _
  | cons event rest ih =>
    obtain ⟨next, taken, reached⟩ := run_cons.mp reached
    exact (matched state event next initial taken).trans (ih (preserved state event next initial trivial taken) reached)

end Transition
