import BoostProcess.Library.Blocks
import Mathlib.Data.UInt

/-! The environment block of a new process on Windows, and the iteration over one.

process_environment builds the block; current_view looks for the end of a block and then
steps through it. A wide character is the value of its 16 bits.
-/

set_option autoImplicit false

namespace BoostProcess.V2.Environment

open Blocks

/-- `process_environment::build_env` for strings that convert to wcstring_ref. Others are
first converted into env_buffer, and then handled in the same way. -/
def buildEnv (args : List (List UInt16)) : List UInt16 :=
  -- each from its begin to one behind its end, which is the terminator
  (args.flatMap fun cs => cs ++ [0]) ++ [0]

def next (nh : List UInt16) : Option (List UInt16) := after 0 nh

/-- `detail::dereference`, as the key_value_pair_view that is made of it. -/
def dereference (iterator : List UInt16) : Option (List UInt16) := text 0 iterator

/-- `detail::find_end`: it reads one element ahead of a terminator. -/
def findEnd : List UInt16 → Option (List UInt16)
  | [] => none
  | first :: rest =>
    if first ≠ 0 then findEnd rest
    else
      match rest with
      | [] => none
      | ahead :: _ => if ahead ≠ 0 then findEnd rest else some rest

/-- The loop `for (auto kv : current_view)` over a block gives these entries. -/
def CurrentView (block : List UInt16) (entries : List (List UInt16)) : Prop :=
  Ranges next dereference findEnd block entries

/-- What may be an entry of an environment. -/
def Entry (entry : List UInt16) : Prop := entry ≠ [] ∧ 0 ∉ entry

instance (entry : List UInt16) : Decidable (Entry entry) := inferInstanceAs (Decidable (_ ∧ _))

theorem buildEnv_eq (args : List (List UInt16)) : buildEnv args = terminated 0 args ++ [0] := rfl

theorem findEnd_skip {front rest : List UInt16} (free : 0 ∉ front) : findEnd (front ++ rest) = findEnd rest := by
  induction front with
  | nil => rfl
  | cons first front ih =>
    have passed : first ≠ 0 := (List.ne_of_not_mem_cons free).symm
    rw [List.cons_append, findEnd.eq_def]
    simp only [ne_eq, passed, not_false_eq_true, if_true]
    exact ih (List.not_mem_of_not_mem_cons free)

/-- Behind a last entry there are two terminators, and nowhere before. -/
theorem findEnd_terminated {entries : List (List UInt16)} (valid : ∀ entry ∈ entries, Entry entry)
    (some_entry : entries ≠ []) : findEnd (terminated 0 entries ++ [0]) = some [0] := by
  induction entries with
  | nil => exact absurd rfl some_entry
  | cons entry others ih =>
    rw [terminated_cons, List.append_assoc, findEnd_skip (valid entry List.mem_cons_self).2]
    cases others with
    | nil => simp [findEnd]
    | cons following others =>
      obtain ⟨started, free⟩ := valid following (by simp)
      have later := ih (fun other member => valid other (List.mem_cons_of_mem entry member)) (by simp)
      -- the next entry is not empty, so its first element is read ahead
      cases following with
      | nil => exact absurd rfl started
      | cons first tail =>
        have passed : first ≠ 0 := (List.ne_of_not_mem_cons free).symm
        rw [← later]
        simp [findEnd, passed]

/-- The block of a list of entries is iterated as that list, except that of the empty list,
in which the search for the end reads behind the block. -/
theorem currentView_buildEnv {entries : List (List UInt16)} (valid : ∀ entry ∈ entries, Entry entry) :
    CurrentView (buildEnv entries) entries ↔ entries ≠ [] := by
  rw [buildEnv_eq]
  constructor
  · rintro ⟨stop, found, -⟩ rfl
    cases found
  · intro some_entry
    have free : ∀ entry ∈ entries, 0 ∉ entry := fun entry member => (valid entry member).2
    refine ⟨[0], findEnd_terminated valid some_entry, ?_⟩
    exact (visits_terminated free le_rfl).mpr ⟨[], by simp, .done rfl⟩

theorem currentView_buildEnv_two :
    CurrentView (buildEnv [[65, 61, 49], [66, 61]]) [[65, 61, 49], [66, 61]] ↔
      ([[65, 61, 49], [66, 61]] : List (List UInt16)) ≠ [] :=
  currentView_buildEnv (by decide)

/-- No entries make a block of one terminator. -/
theorem currentView_buildEnv_nil : ¬CurrentView (buildEnv []) [] := by
  rintro ⟨stop, found, -⟩
  cases found

end BoostProcess.V2.Environment
