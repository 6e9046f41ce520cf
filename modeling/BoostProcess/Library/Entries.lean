import Mathlib.Data.List.Nodup
import Mathlib.Logic.Function.Basic

/-! Finite maps as lists of entries in the order in which their keys came.

A key keeps its place when its value changes. Every list with distinct keys is a map, and
the operations are updates of it.
-/

set_option autoImplicit false

namespace Entries

variable {Key Value : Type} [DecidableEq Key]

def keys (entries : List (Key × Value)) : List Key := entries.map Prod.fst

/-- Replace the value of a key, or put a new entry behind the others. -/
def put (key : Key) (value : Value) : List (Key × Value) → List (Key × Value)
  | [] => [(key, value)]
  | entry :: rest => if entry.1 = key then (key, value) :: rest else entry :: put key value rest

def remove (key : Key) (entries : List (Key × Value)) : List (Key × Value) := entries.eraseP fun entry => entry.1 = key

/-- The map that the entries stand for; the first entry of a key counts. -/
def map : List (Key × Value) → Key → Option Value
  | [] => fun _ => none
  | entry :: rest => Function.update (map rest) entry.1 (some entry.2)

variable {entries : List (Key × Value)} {entry : Key × Value} {key : Key} {value : Value}

@[simp] theorem map_cons (entry : Key × Value) (entries : List (Key × Value)) :
    map (entry :: entries) = Function.update (map entries) entry.1 (some entry.2) := rfl

theorem map_eq_none : map entries key = none ↔ key ∉ keys entries := by
  induction entries with
  | nil => simp [map, keys]
  | cons entry rest ih =>
    rw [map_cons]
    by_cases same : key = entry.1
    · simp [same, keys]
    · rw [Function.update_of_ne same, ih]
      simp [keys, same]

theorem map_eq_some (distinct : (keys entries).Nodup) : map entries key = some value ↔ (key, value) ∈ entries := by
  induction entries with
  | nil => simp [map]
  | cons entry rest ih =>
    obtain ⟨absent, distinct⟩ := List.nodup_cons.mp distinct
    rw [map_cons, List.mem_cons]
    by_cases same : key = entry.1
    · subst same
      rw [Function.update_self]
      constructor
      · intro found
        exact .inl (Prod.ext rfl (Option.some.inj found).symm)
      · intro member
        cases member with
        | inl here => exact congrArg (some ∘ Prod.snd) here.symm
        | inr later => exact absurd (List.mem_map.mpr ⟨_, later, rfl⟩) absent
    · rw [Function.update_of_ne same, ih distinct]
      constructor
      · exact .inr
      · intro member
        cases member with
        | inl here => exact absurd (congrArg Prod.fst here) same
        | inr later => exact later

/-- The entry that counts for a key. -/
theorem exists_first (present : key ∈ keys entries) :
    ∃ front value rest, entries = front ++ (key, value) :: rest ∧ ∀ entry ∈ front, entry.1 ≠ key := by
  induction entries with
  | nil => cases present
  | cons entry rest ih =>
    by_cases same : entry.1 = key
    · exact ⟨[], entry.2, rest, by rw [← same]; rfl, nofun⟩
    · obtain ⟨front, value, behind, split, before⟩ := ih (List.mem_of_ne_of_mem (Ne.symm same) present)
      exact ⟨entry :: front, value, behind, congrArg _ split, List.forall_mem_cons.mpr ⟨same, before⟩⟩

theorem map_first {front rest : List (Key × Value)} (before : ∀ entry ∈ front, entry.1 ≠ key) :
    map (front ++ (key, value) :: rest) key = some value := by
  induction front with
  | nil => exact Function.update_self _ _ _
  | cons entry front ih =>
    obtain ⟨different, later⟩ := List.forall_mem_cons.mp before
    rw [List.cons_append, map_cons, Function.update_of_ne different.symm, ih later]

theorem map_put : map (put key value entries) = Function.update (map entries) key (some value) := by
  induction entries with
  | nil => rfl
  | cons entry rest ih =>
    unfold put
    split
    · rename_i same
      rw [map_cons, map_cons, same, Function.update_idem]
    · rename_i different
      rw [map_cons, map_cons, ih, Function.update_comm (Ne.symm different)]

theorem mem_keys_put {other : Key} : other ∈ keys (put key value entries) ↔ other = key ∨ other ∈ keys entries := by
  rw [← not_iff_not, not_or, ← map_eq_none, map_put, ← map_eq_none]
  by_cases same : other = key
  · simp [same]
  · simp [same]

theorem nodup_put (distinct : (keys entries).Nodup) : (keys (put key value entries)).Nodup := by
  induction entries with
  | nil => exact List.nodup_singleton key
  | cons entry rest ih =>
    obtain ⟨absent, distinct⟩ := List.nodup_cons.mp distinct
    unfold put
    split
    · rename_i same
      rw [same] at absent
      exact List.nodup_cons.mpr ⟨absent, distinct⟩
    · rename_i different
      apply List.nodup_cons.mpr
      refine ⟨fun member => ?_, ih distinct⟩
      cases mem_keys_put.mp member with
      | inl same => exact different same
      | inr later => exact absent later

theorem mem_put (member : entry ∈ put key value entries) : entry = (key, value) ∨ entry ∈ entries := by
  induction entries with
  | nil => exact .inl (List.mem_singleton.mp member)
  | cons first rest ih =>
    unfold put at member
    split at member
    · exact (List.mem_cons.mp member).imp_right (List.mem_cons_of_mem first)
    · cases List.mem_cons.mp member with
      | inl here => exact .inr (here ▸ List.mem_cons_self)
      | inr later => exact (ih later).imp_right (List.mem_cons_of_mem first)

theorem mem_remove (member : entry ∈ remove key entries) : entry ∈ entries := List.mem_of_mem_eraseP member

theorem nodup_remove (distinct : (keys entries).Nodup) : (keys (remove key entries)).Nodup :=
  List.Sublist.nodup ((List.eraseP_sublist).map Prod.fst) distinct

theorem map_remove (distinct : (keys entries).Nodup) : map (remove key entries) = Function.update (map entries) key none := by
  induction entries with
  | nil =>
    funext other
    by_cases same : other = key <;> simp [map, remove, same]
  | cons entry rest ih =>
    obtain ⟨absent, distinct⟩ := List.nodup_cons.mp distinct
    by_cases same : entry.1 = key
    · subst same
      have gone : remove entry.1 (entry :: rest) = rest := by simp [remove]
      rw [gone, map_cons, Function.update_idem]
      -- the key is not mapped by the rest
      exact (Function.update_eq_self_iff.mpr (map_eq_none.mpr absent).symm).symm
    · have kept : remove key (entry :: rest) = entry :: remove key rest := by simp [remove, same]
      rw [kept, map_cons, map_cons, ih distinct, Function.update_comm (Ne.symm same)]

theorem remove_first {front rest : List (Key × Value)} (before : ∀ entry ∈ front, entry.1 ≠ key) :
    remove key (front ++ (key, value) :: rest) = front ++ rest := by
  have passed : ∀ entry ∈ front, ¬ decide (entry.1 = key) = true :=
    fun entry member => by simpa using before entry member
  rw [remove, List.eraseP_append_right _ passed]
  exact congrArg _ (List.eraseP_cons_of_pos (decide_eq_true rfl))

theorem remove_eq_self (absent : key ∉ keys entries) : remove key entries = entries := by
  apply List.eraseP_of_forall_not
  intro entry member
  simp only [decide_eq_true_eq]
  exact fun same => absent (List.mem_map.mpr ⟨entry, member, same⟩)

theorem not_mem_keys_remove (distinct : (keys entries).Nodup) : key ∉ keys (remove key entries) := by
  rw [← map_eq_none, map_remove distinct, Function.update_self]

theorem map_concat (absent : key ∉ keys entries) :
    map (entries ++ [(key, value)]) = Function.update (map entries) key (some value) := by
  induction entries with
  | nil => rfl
  | cons entry rest ih =>
    have different : key ≠ entry.1 := List.ne_of_not_mem_cons absent
    rw [List.cons_append, map_cons, map_cons, ih (List.not_mem_of_not_mem_cons absent), Function.update_comm different]

omit [DecidableEq Key] in
theorem nodup_concat (distinct : (keys entries).Nodup) (absent : key ∉ keys entries) :
    (keys (entries ++ [(key, value)])).Nodup := by
  rw [keys, List.map_append]
  exact List.nodup_append'.mpr ⟨distinct, List.nodup_singleton key, List.disjoint_singleton.mpr absent⟩

/-! ## Entries of one key and of the others -/

theorem filter_ne_put : (put key value entries).filter (·.1 ≠ key) = entries.filter (·.1 ≠ key) := by
  induction entries with
  | nil => simp [put]
  | cons entry rest ih =>
    unfold put
    split
    · rename_i same
      simp [same]
    · rw [List.filter_cons, List.filter_cons, ih]

theorem filter_ne_remove : (remove key entries).filter (·.1 ≠ key) = entries.filter (·.1 ≠ key) := by
  induction entries with
  | nil => rfl
  | cons entry rest ih =>
    unfold remove at ih ⊢
    by_cases same : entry.1 = key
    · simp [same]
    · rw [List.eraseP_cons_of_neg (by simpa using same), List.filter_cons, List.filter_cons, ih]

theorem filter_eq_nil (absent : key ∉ keys entries) : entries.filter (·.1 = key) = [] := by
  rw [List.filter_eq_nil_iff]
  intro entry member
  simp only [decide_eq_true_eq]
  exact fun same => absent (List.mem_map.mpr ⟨entry, member, same⟩)

theorem filter_eq_put (distinct : (keys entries).Nodup) : (put key value entries).filter (·.1 = key) = [(key, value)] := by
  induction entries with
  | nil => simp [put]
  | cons entry rest ih =>
    obtain ⟨absent, distinct⟩ := List.nodup_cons.mp distinct
    unfold put
    split
    · rename_i same
      rw [same] at absent
      rw [List.filter_cons_of_pos (by simp), filter_eq_nil absent]
    · rename_i different
      rw [List.filter_cons_of_neg (by simpa using different), ih distinct]

theorem remove_keys (entries : List (Key × Value)) :
    (keys entries).foldl (fun entries key => remove key entries) entries = [] := by
  induction entries with
  | nil => rfl
  | cons entry rest ih =>
    have gone : remove entry.1 (entry :: rest) = rest := by simp [remove]
    change (keys rest).foldl _ (remove entry.1 (entry :: rest)) = []
    rw [gone]
    exact ih

end Entries
