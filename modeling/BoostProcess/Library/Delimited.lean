import Mathlib.Data.List.Basic

/-! Texts that are pieces with a delimiter between neighbours.

A reader that takes the end of the text for the end of the pieces does not see a last piece
that is empty.
-/

set_option autoImplicit false

namespace Delimited

variable {Code : Type}

/-- The pieces that a reader sees that stops where nothing is left. -/
def shown : List (List Code) → List (List Code)
  | [] => []
  | [piece] => if piece = [] then [] else [piece]
  | piece :: next :: rest => piece :: shown (next :: rest)

theorem shown_cons (piece : List Code) {rest : List (List Code)} (more : rest ≠ []) :
    shown (piece :: rest) = piece :: shown rest := by
  cases rest with
  | nil => exact absurd rfl more
  | cons next rest => rfl

/-- All pieces are seen, if the last one is not empty. -/
theorem shown_eq_iff (pieces : List (List Code)) : shown pieces = pieces ↔ pieces.getLast? ≠ some [] := by
  induction pieces with
  | nil => simp [shown]
  | cons piece rest ih =>
    cases rest with
    | nil => by_cases filled : piece = [] <;> simp [shown, filled]
    | cons next rest =>
      rw [shown_cons piece (List.cons_ne_nil _ _), List.cons.injEq, List.getLast?_cons_cons]
      exact (and_iff_right rfl).trans ih

/-- Each piece with a delimiter in front of it. -/
def following (delimiter : Code) (pieces : List (List Code)) : List Code :=
  pieces.flatMap (delimiter :: ·)

@[simp] theorem following_cons (delimiter : Code) (piece : List Code) (rest : List (List Code)) :
    following delimiter (piece :: rest) = delimiter :: piece ++ following delimiter rest := rfl

theorem intercalate_cons (delimiter : Code) (piece : List Code) (rest : List (List Code)) :
    [delimiter].intercalate (piece :: rest) = piece ++ following delimiter rest := by
  induction rest generalizing piece with
  | nil => simp [following]
  | cons next rest ih =>
    rw [List.intercalate_cons_cons, ih, following_cons]
    simp

/-- A text without its delimiter is one piece. Any other text is a piece and a text behind it. -/
theorem cases (delimiter : Code) (text : List Code) :
    delimiter ∉ text ∨ ∃ front rest, text = front ++ delimiter :: rest ∧ delimiter ∉ front :=
  (em (delimiter ∈ text)).symm.imp_right List.eq_append_cons_of_mem

/-- Induction over what is behind the first delimiter. -/
@[elab_as_elim] theorem induction (delimiter : Code) {motive : List Code → Prop}
    (last : ∀ text, delimiter ∉ text → motive text)
    (behind : ∀ front rest, delimiter ∉ front → motive rest → motive (front ++ delimiter :: rest)) (text : List Code) :
    motive text := by
  induction length : text.length using Nat.strongRecOn generalizing text with
  | ind size ih =>
    rcases cases delimiter text with free | ⟨front, rest, rfl, free⟩
    · exact last text free
    · have shorter : rest.length < size := by
        rw [← length, List.length_append, List.length_cons]
        omega
      exact behind front rest free (ih rest.length shorter rest rfl)

/-- The text in front of the first delimiter is determined by the whole. -/
theorem front_unique {delimiter : Code} {front front' rest rest' : List Code} (free : delimiter ∉ front)
    (free' : delimiter ∉ front') (same : front ++ delimiter :: rest = front' ++ delimiter :: rest') :
    front = front' ∧ rest = rest' := by
  induction front generalizing front' with
  | nil =>
    cases front' with
    | nil => exact ⟨rfl, (List.cons.inj same).2⟩
    | cons code front' => exact absurd (List.cons.inj same).1 (List.ne_of_not_mem_cons free')
  | cons code front ih =>
    cases front' with
    | nil => exact absurd (List.cons.inj same).1.symm (List.ne_of_not_mem_cons free)
    | cons code' front' =>
      obtain ⟨codes, behind⟩ := List.cons.inj same
      obtain ⟨fronts, rests⟩ := ih (List.not_mem_of_not_mem_cons free) (List.not_mem_of_not_mem_cons free') behind
      exact ⟨congrArg₂ List.cons codes fronts, rests⟩

variable [DecidableEq Code]

theorem idxOf?_behind {front rest : List Code} {delimiter : Code} (free : delimiter ∉ front) :
    (front ++ delimiter :: rest).idxOf? delimiter = some front.length := by
  rw [List.idxOf?_eq_some_iff]
  refine ⟨by simp, by simp, fun position before => ?_⟩
  rw [List.getElem_append_left before]
  exact fun same => free (same ▸ List.getElem_mem before)

end Delimited
