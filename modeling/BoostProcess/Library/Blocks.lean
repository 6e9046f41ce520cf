import Mathlib.Data.List.Basic

/-! Blocks of memory that hold strings, each with a terminator behind it.

A pointer into a block is what the block holds from there on, so two pointers into one
block are the same when equally much is left. Reading at the end of a block gives nothing.
-/

set_option autoImplicit false

namespace Blocks

variable {Code : Type} {nul : Code}

/-- Move a pointer up to the first element that meets a condition. -/
def seek (condition : Code → Bool) : List Code → Option (List Code)
  | [] => none
  | code :: rest => if condition code then some (code :: rest) else seek condition rest

/-- The string at a pointer, without its terminator. -/
def text [DecidableEq Code] (nul : Code) : List Code → Option (List Code)
  | [] => none
  | code :: rest => if code = nul then some [] else (text nul rest).map (code :: ·)

/-- The pointer behind the terminator of the string at a pointer. -/
def after [DecidableEq Code] (nul : Code) (pointer : List Code) : Option (List Code) :=
  (seek (fun code => code = nul) pointer).map List.tail

/-- Strings one behind the other, each with its terminator. -/
def terminated (nul : Code) (entries : List (List Code)) : List Code :=
  entries.flatMap fun entry => entry ++ [nul]

@[simp] theorem terminated_nil : terminated nul [] = [] := rfl

@[simp] theorem terminated_cons (entry : List Code) (entries : List (List Code)) :
    terminated nul (entry :: entries) = entry ++ nul :: terminated nul entries := by
  simp [terminated]

theorem terminated_append (first second : List (List Code)) :
    terminated nul (first ++ second) = terminated nul first ++ terminated nul second :=
  List.flatMap_append

/-- The pointers of an array up to the null pointer behind them. -/
theorem takeWhile_null {Pointer : Type} (pointers : List Pointer) :
    (pointers.map some ++ [none]).takeWhile Option.isSome = pointers.map some := by
  induction pointers with
  | nil => rfl
  | cons pointer rest ih => exact congrArg (some pointer :: ·) ih

/-- Of two parts, the first one that holds an element has its first occurrence. -/
theorem first_occurrence {first second front rest : List Code} {code : Code} (free : code ∉ front)
    (split : first ++ second = front ++ code :: rest) :
    (∃ tail, first = front ++ code :: tail) ∨ code ∉ first ∧ ∃ later, front = first ++ later ∧
      second = later ++ code :: rest := by
  rcases List.append_eq_append_iff.mp split with ⟨later, same, behind⟩ | ⟨tail, same, behind⟩
  · exact .inr ⟨fun member => free (same ▸ List.mem_append_left _ member), later, same, behind⟩
  · cases tail with
    | nil =>
      rw [List.append_nil] at same
      exact .inr ⟨same ▸ free, [], by simp [same], by simpa using behind.symm⟩
    | cons other tail =>
      obtain ⟨rfl, -⟩ := List.cons.inj behind
      exact .inl ⟨tail, same⟩

theorem seek_append {condition : Code → Bool} {front rest : List Code} {code : Code}
    (skipped : ∀ other ∈ front, condition other = false) (met : condition code = true) :
    seek condition (front ++ code :: rest) = some (code :: rest) := by
  induction front with
  | nil => simp [seek, met]
  | cons first front ih =>
    have passed := skipped first List.mem_cons_self
    simp only [List.cons_append, seek, passed, Bool.false_eq_true, if_false]
    exact ih fun other member => skipped other (List.mem_cons_of_mem first member)

theorem seek_inv {condition : Code → Bool} {pointer found : List Code} (reached : seek condition pointer = some found) :
    ∃ front code rest, pointer = front ++ code :: rest ∧ found = code :: rest ∧ condition code = true ∧
      ∀ other ∈ front, condition other = false := by
  induction pointer with
  | nil => cases reached
  | cons first pointer ih =>
    simp only [seek] at reached
    split at reached
    · rename_i met
      exact ⟨[], first, pointer, rfl, (Option.some.inj reached).symm, met, by simp⟩
    · rename_i passed
      obtain ⟨front, code, rest, rfl, same, met, skipped⟩ := ih reached
      refine ⟨first :: front, code, rest, rfl, same, met, List.forall_mem_cons.mpr ⟨?_, skipped⟩⟩
      exact Bool.eq_false_iff.mpr passed

theorem seek_eq_none {condition : Code → Bool} {pointer : List Code} :
    seek condition pointer = none ↔ ∀ code ∈ pointer, condition code = false := by
  induction pointer with
  | nil => simp [seek]
  | cons first pointer ih => by_cases met : condition first = true <;> simp [seek, met, ih]

section
variable [DecidableEq Code]

theorem text_append {entry rest : List Code} (free : nul ∉ entry) : text nul (entry ++ nul :: rest) = some entry := by
  induction entry with
  | nil => simp [text]
  | cons code entry ih =>
    have passed : code ≠ nul := (List.ne_of_not_mem_cons free).symm
    have later := ih (List.not_mem_of_not_mem_cons free)
    simp only [List.cons_append, text, passed, if_false, later, Option.map_some]

theorem after_append {entry rest : List Code} (free : nul ∉ entry) :
    after nul (entry ++ nul :: rest) = some rest := by
  have skipped : ∀ code ∈ entry, decide (code = nul) = false :=
    fun code member => decide_eq_false fun same => free (same ▸ member)
  rw [after, seek_append skipped (decide_eq_true rfl)]
  rfl

theorem after_skip {front rest : List Code} (free : nul ∉ front) : after nul (front ++ rest) = after nul rest := by
  induction front with
  | nil => rfl
  | cons code front ih =>
    have passed : code ≠ nul := (List.ne_of_not_mem_cons free).symm
    have later := ih (List.not_mem_of_not_mem_cons free)
    simpa only [List.cons_append, after, seek, decide_eq_true_eq, passed, if_false] using later

theorem after_shrinks {pointer next : List Code} (moved : after nul pointer = some next) :
    next.length < pointer.length := by
  obtain ⟨found, reached, rfl⟩ := Option.map_eq_some_iff.mp moved
  obtain ⟨front, code, rest, rfl, rfl, -, -⟩ := seek_inv reached
  simp only [List.tail_cons, List.length_append, List.length_cons]
  omega

end

/-! ## Iteration -/

/-- A loop from one pointer up to another reads these strings and ends. -/
inductive Visits (next dereference : List Code → Option (List Code)) (stop : List Code) :
    List Code → List (List Code) → Prop
  | done {pointer : List Code} : pointer.length = stop.length → Visits next dereference stop pointer []
  | step {pointer following entry : List Code} {entries : List (List Code)} :
      pointer.length ≠ stop.length → dereference pointer = some entry → next pointer = some following →
      Visits next dereference stop following entries → Visits next dereference stop pointer (entry :: entries)

variable [DecidableEq Code] {stop : List Code}

/-- A loop that has moved past its end never ends. -/
theorem Visits.not_past {pointer : List Code} {entries : List (List Code)}
    (visits : Visits (after nul) (text nul) stop pointer entries) : stop.length ≤ pointer.length := by
  induction visits with
  | done reached => exact Nat.le_of_eq reached.symm
  | step _ _ moved _ ih => exact Nat.le_trans ih (Nat.le_of_lt (after_shrinks moved))

theorem Visits.at_stop {pointer : List Code} {entries : List (List Code)}
    (visits : Visits (after nul) (text nul) stop pointer entries) (reached : pointer.length = stop.length) :
    entries = [] := by
  cases visits with
  | done _ => rfl
  | step distinct _ _ _ => exact absurd reached distinct

theorem visits_cons {entry rest : List Code} {entries : List (List Code)} (free : nul ∉ entry)
    (ahead : stop.length ≠ (entry ++ nul :: rest).length) :
    Visits (after nul) (text nul) stop (entry ++ nul :: rest) entries ↔
      ∃ others, entries = entry :: others ∧ Visits (after nul) (text nul) stop rest others := by
  constructor
  · intro visits
    cases visits with
    | done reached => exact absurd reached.symm ahead
    | step _ read moved later =>
      rw [text_append free, Option.some.injEq] at read
      rw [after_append free, Option.some.injEq] at moved
      subst read moved
      exact ⟨_, rfl, later⟩
  · rintro ⟨others, rfl, later⟩
    exact .step ahead.symm (text_append free) (after_append free) later

/-- A loop whose end lies behind a number of strings reads all of them. -/
theorem visits_terminated {front entries : List (List Code)} {rest : List Code} (free : ∀ entry ∈ front, nul ∉ entry)
    (ahead : stop.length ≤ rest.length) :
    Visits (after nul) (text nul) stop (terminated nul front ++ rest) entries ↔
      ∃ others, entries = front ++ others ∧ Visits (after nul) (text nul) stop rest others := by
  induction front generalizing entries with
  | nil => simp
  | cons entry front ih =>
    have short : stop.length ≠ (entry ++ nul :: (terminated nul front ++ rest)).length := by
      simp only [List.length_append, List.length_cons]
      omega
    have later := fun others => @ih others fun other member => free other (List.mem_cons_of_mem entry member)
    simp only [terminated_cons, List.append_assoc, List.cons_append]
    rw [visits_cons (free entry List.mem_cons_self) short]
    constructor
    · rintro ⟨others, rfl, visits⟩
      obtain ⟨last, rfl, ended⟩ := (later others).mp visits
      exact ⟨last, rfl, ended⟩
    · rintro ⟨last, rfl, ended⟩
      exact ⟨front ++ last, rfl, (later _).mpr ⟨last, rfl, ended⟩⟩

/-- No loop ends inside a string that it starts in front of. -/
theorem not_visits_inside {front : List Code} {entries : List (List Code)} (started : front ≠ []) (free : nul ∉ front) :
    ¬Visits (after nul) (text nul) stop (front ++ stop) entries := by
  intro visits
  cases visits with
  | done reached =>
    rw [List.length_append] at reached
    exact started (List.length_eq_zero_iff.mp (by omega))
  | step _ _ moved later =>
    rw [after_skip free] at moved
    have := later.not_past
    have := after_shrinks moved
    omega

/-- A range-based for over a block: its end is looked for first. -/
def Ranges (next dereference findEnd : List Code → Option (List Code)) (block : List Code)
    (entries : List (List Code)) : Prop :=
  ∃ stop, findEnd block = some stop ∧ Visits next dereference stop block entries

end Blocks
