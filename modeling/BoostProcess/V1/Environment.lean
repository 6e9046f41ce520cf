import BoostProcess.Library.Blocks
import BoostProcess.Library.Entries
import BoostProcess.Library.Transition
import Mathlib.Data.List.TakeWhile
import Mathlib.Data.UInt

/-! basic_environment on POSIX as a map from names to values.

The strings of the environment are in `_data`, and what the pointers of `_env_arr` point to
is loaded from it. Lookups scan the pointers, changes scan the strings.
-/

set_option autoImplicit false

namespace BoostProcess.V1

open Transition

/-- The characters that an environment gives a meaning to. -/
class EnvironmentChar (Char : Type) where
  equalSign : Char
  nullChar : Char
  envSeperator : Char
  equalSign_ne_nullChar : equalSign ≠ nullChar
  envSeperator_ne_nullChar : envSeperator ≠ nullChar

export EnvironmentChar (equalSign nullChar envSeperator)

instance : EnvironmentChar UInt8 := ⟨0x3d, 0, 0x3a, by decide, by decide⟩

/-- `wchar_t` -/
instance : EnvironmentChar UInt32 := ⟨0x3d, 0, 0x3a, by decide, by decide⟩

variable {Char : Type} [DecidableEq Char] [EnvironmentChar Char]

/-- The string at a pointer. -/
def pointed (st : List Char) : List Char := st.takeWhile (· ≠ nullChar)

/-- `id + equal_sign<Char>() + value` -/
def render (id value : List Char) : List Char := id ++ equalSign :: value

/-- `const_entry` and `entry`; a null pointer is no data. -/
structure Entry (Char : Type) where
  name : List Char
  data : Option (List Char)
  deriving DecidableEq

structure Environment (Char : Type) where
  /-- `_data` -/
  data : List (List Char)
  /-- What `_env_impl` points to, up to the null pointer. -/
  envImpl : List (List Char)
  deriving DecidableEq

/-- `make_entry` at a pointer of the array. -/
def makeEntry (st : List Char) : Entry Char :=
  let name := st.takeWhile fun c => c ≠ equalSign ∧ c ≠ nullChar
  ⟨name, some (pointed (st.drop (name.length + 1)))⟩

namespace Environment

def empty : Environment Char := ⟨[], []⟩

/-- `_load_var(data)`, which puts a NUL into empty strings. -/
def loadVar (data : List (List Char)) : List (List Char) :=
  data.map fun val => if val = [] then [nullChar] else val

def reload (env : Environment Char) : Environment Char := ⟨loadVar env.data, loadVar env.data⟩

/-- The test of `get`, `set` and `reset`. -/
def holds (id st : List Char) : Bool :=
  if st.length ≤ id.length then false else id = st.take id.length ∧ st[id.length]? = some equalSign

/-- `*itr = ...` at the first string that holds the id, or `push_back`. -/
def setData (id value : List Char) : List (List Char) → List (List Char)
  | [] => [render id value]
  | st :: rest => if holds id st then render id value :: rest else st :: setData id value rest

def set (env : Environment Char) (id value : List Char) : Environment Char :=
  reload { env with data := setData id value env.data }

def reset (env : Environment Char) (id : List Char) : Environment Char :=
  reload { env with data := env.data.eraseP (holds id) }

/-- The test of `find` and `count`, with `st1 = key + equal_sign<Char>()`. -/
def matchesKey (key st : List Char) : Bool :=
  let st1 := key ++ [equalSign]
  st1.length < (pointed st).length ∧ st1 = st.take st1.length

/-- The string at the pointer that `find` stops at, if that is not the end. -/
def find (env : Environment Char) (key : List Char) : Option (List Char) := env.envImpl.find? (matchesKey key)

def count (env : Environment Char) (st : List Char) : Nat := if env.envImpl.any (matchesKey st) then 1 else 0

def size (env : Environment Char) : Nat := env.envImpl.length

def isEmpty (env : Environment Char) : Bool := env.envImpl.head?.isNone

/-- What iteration from begin to end yields. -/
def entries (env : Environment Char) : List (Entry Char) := env.envImpl.map makeEntry

/-- `at`, which throws out_of_range for a name that is not found. -/
def at? (env : Environment Char) (key : List Char) : Option (Entry Char) := (env.find key).map makeEntry

/-- `operator[]` -/
def index (env : Environment Char) (key : List Char) : Entry Char :=
  match env.find key with
  | some st => makeEntry st
  | none => ⟨key, none⟩

def erase (env : Environment Char) (id : List Char) : Environment Char := (env.reset id).reload

def emplace (env : Environment Char) (id value : List Char) : Environment Char × Option (List Char) × Bool :=
  match env.find id with
  | none =>
    let env := (env.set id value).reload
    (env, env.find id, true)
  | some f => (env, some f, false)

def clear (env : Environment Char) : Environment Char :=
  ((env.entries.map Entry.name).foldl reset env).reload

end Environment

namespace Entry

open Environment

/-- `reload()` of an entry and then of its environment. -/
def reload (entry : Entry Char) (env : Environment Char) : Environment Char × Entry Char :=
  (env.reload, { entry with data := (env.find entry.name).bind fun st => (makeEntry st).data })

def assign (entry : Entry Char) (env : Environment Char) (value : List Char) : Environment Char × Entry Char :=
  entry.reload (env.set entry.name value)

/-- `assign` of a vector or an initializer_list. -/
def assignAll (entry : Entry Char) (env : Environment Char) (value : List (List Char)) : Environment Char × Entry Char :=
  entry.assign env ([envSeperator].intercalate value)

def append (entry : Entry Char) (env : Environment Char) (value : List Char) : Environment Char × Entry Char :=
  match entry.data with
  | none => entry.assign env value
  | some st => entry.assign env (st ++ [envSeperator] ++ value)

def clear (entry : Entry Char) (env : Environment Char) : Environment Char × Entry Char :=
  ((env.reset entry.name).reload, { entry with data := none })

end Entry

/-- A change of an environment; those of an entry are made through `env[id]`. -/
inductive Change (Char : Type) where
  | set (id value : List Char)
  | emplace (id value : List Char)
  | assign (id value : List Char)
  | assignAll (id : List Char) (value : List (List Char))
  | append (id value : List Char)
  | clearEntry (id : List Char)
  | erase (id : List Char)
  | clear
  deriving DecidableEq

def Change.apply (env : Environment Char) : Change Char → Environment Char
  | set id value => env.set id value
  | emplace id value => (env.emplace id value).1
  | assign id value => ((env.index id).assign env value).1
  | assignAll id value => ((env.index id).assignAll env value).1
  | append id value => ((env.index id).append env value).1
  | clearEntry id => ((env.index id).clear env).1
  | erase id => env.erase id
  | clear => env.clear

/-! ## The map that an environment should be -/

/-- Not empty and free of '=' and NUL. -/
def Name (id : List Char) : Prop := id ≠ [] ∧ equalSign ∉ id ∧ nullChar ∉ id

instance (id : List Char) : Decidable (Name id) := inferInstanceAs (Decidable (_ ∧ _ ∧ _))

namespace Change

/-- Names are names, and values have no NUL. -/
def Valid : Change Char → Prop
  | set id value | emplace id value | assign id value | append id value => Name id ∧ nullChar ∉ value
  | assignAll id value => Name id ∧ ∀ part ∈ value, nullChar ∉ part
  | clearEntry id | erase id => Name id
  | clear => True

instance : (change : Change Char) → Decidable change.Valid
  | set _ _ | emplace _ _ | assign _ _ | append _ _ => inferInstanceAs (Decidable (_ ∧ _))
  | assignAll _ _ => inferInstanceAs (Decidable (_ ∧ _))
  | clearEntry _ | erase _ => inferInstanceAs (Decidable (Name _))
  | clear => inferInstanceAs (Decidable True)

/-- The change of the map: what it gives to which name. -/
def update (map : List Char → Option (List Char)) : Change Char → List Char → Option (List Char)
  | set id value | assign id value => Function.update map id (some value)
  | emplace id value => if map id = none then Function.update map id (some value) else map
  | assignAll id value => Function.update map id (some ([envSeperator].intercalate value))
  | append id value =>
    Function.update map id (some (match map id with
      | none => value
      | some old => old ++ [envSeperator] ++ value))
  | clearEntry id | erase id => Function.update map id none
  | clear => fun _ => none

/-- The value that the change stores, if it does, is not empty. -/
def StoresText (map : List Char → Option (List Char)) : Change Char → Prop
  | set _ value | assign _ value => value ≠ []
  | emplace id value | append id value => map id = none → value ≠ []
  | assignAll _ value => [envSeperator].intercalate value ≠ []
  | _ => True

end Change

/-- find, count, at, operator[], size, empty and iteration say what the map says. -/
structure Agrees (env : Environment Char) (map : List Char → Option (List Char)) : Prop where
  find : ∀ id, Name id → env.find id = (map id).map (render id)
  count : ∀ id, Name id → env.count id = if map id = none then 0 else 1
  atKey : ∀ id, Name id → env.at? id = (map id).map fun value => ⟨id, some value⟩
  index : ∀ id, Name id → env.index id = ⟨id, map id⟩
  once : env.entries.Nodup
  entries : ∀ entry, entry ∈ env.entries ↔ ∃ value, entry.data = some value ∧ map entry.name = some value
  size : env.size = env.entries.length
  empty : env.isEmpty = true ↔ ∀ id, map id = none

/-! ## Strings of an environment -/

section
variable {id n v : List Char}

theorem pointed_eq_self {st : List Char} (free : nullChar ∉ st) : pointed st = st := by
  unfold pointed
  rw [List.takeWhile_eq_self_iff]
  intro c member
  simp only [ne_eq, decide_eq_true_eq]
  rintro rfl
  exact free member

omit [DecidableEq Char] in
theorem free_render (name : Name n) (free : nullChar ∉ v) : nullChar ∉ render n v := by
  unfold render
  simp only [List.mem_append, List.mem_cons, not_or]
  exact ⟨name.2.2, EnvironmentChar.equalSign_ne_nullChar.symm, free⟩

/-- What is in front of the first '='. -/
def nameOf (st : List Char) : List Char := st.takeWhile (· ≠ equalSign)

theorem nameOf_render (free : equalSign ∉ n) : nameOf (render n v) = n := by
  unfold nameOf render
  rw [List.takeWhile_append_of_pos]
  · simp
  · intro c member
    exact decide_eq_true fun same => free (same ▸ member)

/-- A string starts with an id and '=' if and only if the id is its name. -/
theorem prefix_iff_nameOf (free : equalSign ∉ id) {st : List Char} :
    id ++ [equalSign] <+: st ↔ nameOf st = id ∧ equalSign ∈ st := by
  constructor
  · intro begins
    obtain ⟨v, rfl⟩ := begins
    have same : id ++ [equalSign] ++ v = render id v := List.append_assoc id [equalSign] v
    rw [same, nameOf_render free]
    exact ⟨rfl, List.mem_append_right id List.mem_cons_self⟩
  · intro named
    obtain ⟨name, sign⟩ := named
    obtain ⟨front, v, rfl, unsigned⟩ := List.eq_append_cons_of_mem sign
    have front_eq : nameOf (front ++ equalSign :: v) = front := nameOf_render unsigned
    rw [← name, front_eq]
    exact ⟨v, List.append_assoc front [equalSign] v⟩

theorem render_prefix_iff (name : Name n) (key : Name id) : (id ++ [equalSign] <+: render n v) ↔ n = id := by
  rw [prefix_iff_nameOf key.2.1, nameOf_render name.2.1]
  exact and_iff_left (List.mem_append_right n List.mem_cons_self)

theorem holds_iff {st : List Char} : Environment.holds id st = true ↔ id ++ [equalSign] <+: st := by
  unfold Environment.holds
  rw [List.prefix_iff_eq_take]
  constructor
  · intro found
    split at found
    · cases found
    · rename_i long
      simp only [Bool.decide_and, Bool.and_eq_true, decide_eq_true_eq] at found
      rw [List.length_append, List.length_singleton, List.take_add_one, ← found.1, found.2]
      rfl
  · intro found
    have lengths := congrArg List.length found
    rw [List.length_append, List.length_singleton, List.length_take] at lengths
    rw [List.length_append, List.length_singleton, List.take_add_one] at found
    have long : ¬ st.length ≤ id.length := by omega
    have size : id.length = (st.take id.length).length := by
      rw [List.length_take]
      omega
    obtain ⟨front, last⟩ := List.append_inj found size
    rw [if_neg long]
    simp only [Bool.decide_and, Bool.and_eq_true, decide_eq_true_eq]
    refine ⟨front, ?_⟩
    cases entry : st[id.length]? with
    | none => simp [entry] at last
    | some c => simpa [entry] using last.symm

theorem holds_render (name : Name n) (key : Name id) : Environment.holds id (render n v) = decide (n = id) := by
  rw [Bool.eq_iff_iff, holds_iff, render_prefix_iff name key, decide_eq_true_eq]

/-- `find` and `count` do not see an entry whose value is empty. -/
theorem matchesKey_render (name : Name n) (key : Name id) (free : nullChar ∉ v) :
    Environment.matchesKey id (render n v) = decide (n = id ∧ v ≠ []) := by
  unfold Environment.matchesKey
  dsimp only
  rw [pointed_eq_self (free_render name free)]
  apply decide_eq_decide.mpr
  rw [← List.prefix_iff_eq_take, render_prefix_iff name key, and_comm]
  apply and_congr_right
  rintro rfl
  rw [← List.length_pos_iff_ne_nil]
  unfold render
  simp only [List.length_append, List.length_cons, List.length_nil]
  omega

/-- No string is one that the lookups find and that ends at its '='. -/
theorem find_ne_render_nil (env : Environment Char) : env.find id ≠ some (render id []) := by
  intro found
  have long := List.find?_some found
  unfold Environment.matchesKey at long
  have short : (pointed (render id [])).length ≤ (render id []).length := (List.takeWhile_prefix _).length_le
  unfold render at long short
  simp only [decide_eq_true_eq] at long
  omega

omit [DecidableEq Char] in
theorem free_intercalate {parts : List (List Char)} (free : ∀ part ∈ parts, nullChar ∉ part) :
    nullChar ∉ [envSeperator].intercalate parts := by
  induction parts with
  | nil => exact List.not_mem_nil
  | cons part rest ih =>
    have first := free part List.mem_cons_self
    have later := ih fun other member => free other (List.mem_cons_of_mem part member)
    cases rest with
    | nil =>
      rw [List.intercalate_singleton]
      exact first
    | cons next rest =>
      rw [List.intercalate_cons_cons, List.mem_append, List.mem_append, List.mem_singleton, not_or, not_or]
      exact ⟨⟨first, EnvironmentChar.envSeperator_ne_nullChar.symm⟩, later⟩

/-- What is behind the NUL of an entry is not read. -/
theorem makeEntry_append (name : Name n) (behind : List Char) :
    makeEntry (n ++ equalSign :: behind) = ⟨n, some (pointed behind)⟩ := by
  have front : (n ++ equalSign :: behind).takeWhile (fun c => c ≠ equalSign ∧ c ≠ nullChar) = n := by
    rw [List.takeWhile_append_of_pos]
    · simp
    · intro c member
      simp only [ne_eq, Bool.decide_and, Bool.and_eq_true, decide_eq_true_eq]
      exact ⟨fun same => name.2.1 (same ▸ member), fun same => name.2.2 (same ▸ member)⟩
  unfold makeEntry
  dsimp only
  rw [front, ← List.drop_drop, List.drop_left]
  rfl

theorem makeEntry_render (name : Name n) (free : nullChar ∉ v) : makeEntry (render n v) = ⟨n, some v⟩ := by
  unfold render
  rw [makeEntry_append name, pointed_eq_self free]

end

/-! ## Environments that represent a map -/

open Entries

section
variable {Value : Type} {id value : List Char} {text : List Char × Value → List Char} {pairs : List (List Char × Value)}

/-- Strings that tell which name they are of: set puts an entry where a map puts it. -/
theorem setData_map (keyed : ∀ pair ∈ pairs, Environment.holds id (text pair) = decide (pair.1 = id)) {new : Value}
    (written : text (id, new) = render id value) :
    Environment.setData id value (pairs.map text) = (put id new pairs).map text := by
  induction pairs with
  | nil => exact congrArg (fun st => [st]) written.symm
  | cons pair rest ih =>
    have later := ih fun other member => keyed other (List.mem_cons_of_mem pair member)
    rw [List.map_cons, Environment.setData, keyed pair List.mem_cons_self, put]
    by_cases same : pair.1 = id
    · simp [same, written]
    · simp [same, later]

theorem eraseP_map (keyed : ∀ pair ∈ pairs, Environment.holds id (text pair) = decide (pair.1 = id)) :
    (pairs.map text).eraseP (Environment.holds id) = (remove id pairs).map text := by
  induction pairs with
  | nil => rfl
  | cons pair rest ih =>
    have later := ih fun other member => keyed other (List.mem_cons_of_mem pair member)
    unfold remove at later ⊢
    rw [List.map_cons, List.eraseP_cons, List.eraseP_cons, keyed pair List.mem_cons_self, later]
    by_cases same : pair.1 = id
    · simp [same]
    · simp [same]

end

/-- The strings are those of entries with distinct names, of which none is empty. -/
structure Represents (env : Environment Char) (pairs : List (List Char × List Char)) : Prop where
  data : env.data = pairs.map fun pair => render pair.1 pair.2
  loaded : env.envImpl = env.data
  distinct : (keys pairs).Nodup
  valid : ∀ pair ∈ pairs, Name pair.1 ∧ nullChar ∉ pair.2 ∧ pair.2 ≠ []

namespace Represents

variable {env : Environment Char} {pairs : List (List Char × List Char)} {id value : List Char}

omit [DecidableEq Char] in
theorem name (represents : Represents env pairs) {pair : List Char × List Char} (member : pair ∈ pairs) : Name pair.1 :=
  (represents.valid pair member).1

omit [DecidableEq Char] in
theorem free (represents : Represents env pairs) {pair : List Char × List Char} (member : pair ∈ pairs) :
    nullChar ∉ pair.2 := (represents.valid pair member).2.1

omit [DecidableEq Char] in
theorem filled (represents : Represents env pairs) {pair : List Char × List Char} (member : pair ∈ pairs) :
    pair.2 ≠ [] := (represents.valid pair member).2.2

omit [DecidableEq Char] in
/-- No string is empty, so the pointers get what the strings are. -/
theorem loadVar_render (pairs : List (List Char × List Char)) :
    Environment.loadVar (pairs.map fun pair => render pair.1 pair.2) = pairs.map fun pair => render pair.1 pair.2 := by
  unfold Environment.loadVar
  rw [List.map_map]
  apply List.map_congr_left
  intro pair _
  exact if_neg (by simp [render])

omit [DecidableEq Char] in
theorem of_data (data : env.data = pairs.map fun pair => render pair.1 pair.2) (distinct : (keys pairs).Nodup)
    (valid : ∀ pair ∈ pairs, Name pair.1 ∧ nullChar ∉ pair.2 ∧ pair.2 ≠ []) : Represents env.reload pairs where
  data := by
    unfold Environment.reload
    rw [data]
    exact loadVar_render pairs
  loaded := rfl
  distinct := distinct
  valid := valid

omit [DecidableEq Char] in
theorem reload (represents : Represents env pairs) : Represents env.reload pairs :=
  of_data represents.data represents.distinct represents.valid

omit [DecidableEq Char] in
theorem empty : Represents (Environment.empty : Environment Char) [] :=
  ⟨rfl, rfl, List.nodup_nil, fun _ member => absurd member List.not_mem_nil⟩

theorem setData_render (names : ∀ pair ∈ pairs, Name pair.1) (key : Name id) (value : List Char) :
    Environment.setData id value (pairs.map fun pair => render pair.1 pair.2) =
      (put id value pairs).map fun pair => render pair.1 pair.2 :=
  setData_map (fun pair member => holds_render (names pair member) key) rfl

theorem eraseP_render (names : ∀ pair ∈ pairs, Name pair.1) (key : Name id) :
    (pairs.map fun pair => render pair.1 pair.2).eraseP (Environment.holds id) =
      (remove id pairs).map fun pair => render pair.1 pair.2 :=
  eraseP_map fun pair member => holds_render (names pair member) key

theorem set (represents : Represents env pairs) (key : Name id) (free : nullChar ∉ value) (filled : value ≠ []) :
    Represents (env.set id value) (put id value pairs) := by
  apply of_data
  · change Environment.setData id value env.data = _
    rw [represents.data, setData_render (fun _ member => represents.name member) key]
  · exact nodup_put represents.distinct
  · intro pair member
    cases mem_put member with
    | inl new => exact new ▸ ⟨key, free, filled⟩
    | inr old => exact represents.valid pair old

theorem reset (represents : Represents env pairs) (key : Name id) : Represents (env.reset id) (remove id pairs) := by
  apply of_data
  · change env.data.eraseP (Environment.holds id) = _
    rw [represents.data, eraseP_render (fun _ member => represents.name member) key]
  · exact nodup_remove represents.distinct
  · exact fun pair member => represents.valid pair (mem_remove member)

theorem entries (represents : Represents env pairs) :
    env.entries = pairs.map fun pair => ⟨pair.1, some pair.2⟩ := by
  unfold Environment.entries
  rw [represents.loaded, represents.data, List.map_map]
  apply List.map_congr_left
  intro pair member
  exact makeEntry_render (represents.name member) (represents.free member)

theorem find (represents : Represents env pairs) (key : Name id) : env.find id = (map pairs id).map (render id) := by
  have scan (pairs : List (List Char × List Char)) (valid : ∀ pair ∈ pairs, Name pair.1 ∧ nullChar ∉ pair.2 ∧ pair.2 ≠ []) :
      (pairs.map fun pair => render pair.1 pair.2).find? (Environment.matchesKey id) = (map pairs id).map (render id) := by
    induction pairs with
    | nil => rfl
    | cons pair rest ih =>
      obtain ⟨name, free, filled⟩ := valid pair List.mem_cons_self
      rw [List.map_cons, List.find?_cons, matchesKey_render name key free,
        ih fun other member => valid other (List.mem_cons_of_mem pair member), map_cons]
      by_cases same : pair.1 = id
      · simp [same, filled]
      · simp [same, Function.update_of_ne (Ne.symm same)]
  unfold Environment.find
  rw [represents.loaded, represents.data, scan pairs represents.valid]

theorem makeEntry_found (represents : Represents env pairs) (key : Name id) (found : map pairs id = some value) :
    makeEntry (render id value) = ⟨id, some value⟩ :=
  makeEntry_render key (represents.free ((map_eq_some represents.distinct).mp found))

theorem index (represents : Represents env pairs) (key : Name id) : env.index id = ⟨id, map pairs id⟩ := by
  unfold Environment.index
  rw [represents.find key]
  cases found : map pairs id with
  | none => rfl
  | some value => exact represents.makeEntry_found key found

/-- clear resets the names that iteration yields, which are all. -/
theorem clear (represents : Represents env pairs) : Represents env.clear [] := by
  have names : env.entries.map Entry.name = keys pairs := by
    rw [represents.entries, List.map_map]
    rfl
  have resets (ids : List (List Char)) (valid : ∀ id ∈ ids, Name id) {env : Environment Char}
      {pairs : List (List Char × List Char)} (represents : Represents env pairs) :
      Represents (ids.foldl Environment.reset env) (ids.foldl (fun pairs id => remove id pairs) pairs) := by
    induction ids generalizing env pairs with
    | nil => exact represents
    | cons id rest ih =>
      exact ih (fun other member => valid other (List.mem_cons_of_mem id member))
        (represents.reset (valid id List.mem_cons_self))
  have cleared := resets (keys pairs) (fun id member => by
    obtain ⟨pair, stored, rfl⟩ := List.mem_map.mp member
    exact represents.name stored) represents
  rw [remove_keys] at cleared
  unfold Environment.clear
  rw [names]
  exact cleared.reload

/-! ## What a history leaves -/

theorem count (represents : Represents env pairs) (key : Name id) :
    env.count id = if map pairs id = none then 0 else 1 := by
  have found := represents.find key
  unfold Environment.find at found
  unfold Environment.count
  cases stored : map pairs id with
  | none =>
    rw [stored, Option.map_none, List.find?_eq_none] at found
    exact if_neg fun any => (List.any_eq_true.mp any).elim fun st matching => found st matching.1 matching.2
  | some value =>
    rw [stored] at found
    exact if_pos (List.any_eq_true.mpr ⟨_, List.mem_of_find?_eq_some found, List.find?_some found⟩)

theorem at? (represents : Represents env pairs) (key : Name id) :
    env.at? id = (map pairs id).map fun value => ⟨id, some value⟩ := by
  unfold Environment.at?
  rw [represents.find key]
  cases found : map pairs id with
  | none => rfl
  | some value => exact congrArg some (represents.makeEntry_found key found)

theorem agrees (represents : Represents env pairs) : Agrees env (map pairs) where
  find _ key := represents.find key
  count _ key := represents.count key
  atKey _ key := represents.at? key
  index _ key := represents.index key
  once := by
    rw [represents.entries]
    apply List.Nodup.map_on _ (List.Nodup.of_map Prod.fst represents.distinct)
    intro pair _ other _ same
    obtain ⟨names, values⟩ := Entry.mk.inj same
    exact Prod.ext names (Option.some.inj values)
  entries entry := by
    rw [represents.entries, List.mem_map]
    constructor
    · intro member
      obtain ⟨pair, stored, rfl⟩ := member
      exact ⟨pair.2, rfl, (map_eq_some represents.distinct).mpr stored⟩
    · intro member
      obtain ⟨value, data, found⟩ := member
      exact ⟨(entry.name, value), (map_eq_some represents.distinct).mp found, by rw [← data]⟩
  size := by
    unfold Environment.entries
    rw [List.length_map]
    rfl
  empty := by
    unfold Environment.isEmpty
    rw [represents.loaded, represents.data]
    cases pairs with
    | nil => exact ⟨fun _ _ => rfl, fun _ => rfl⟩
    | cons pair rest =>
      constructor
      · intro none
        cases none
      · intro none
        have found := none pair.1
        rw [map_cons, Function.update_self] at found
        cases found

/-- What an assignment of an entry leaves is what set leaves. -/
theorem assign (represents : Represents env pairs) (key : Name id) (free : nullChar ∉ value) (filled : value ≠ [])
    (data : Option (List Char)) :
    Represents ((⟨id, data⟩ : Entry Char).assign env value).1 (put id value pairs) :=
  (represents.set key free filled).reload

/-- The entry that an assignment leaves is what `operator[]` then yields, so assignments can be chained. -/
theorem reload_entry (represents : Represents env pairs) (key : Name id) (data : Option (List Char)) :
    ((⟨id, data⟩ : Entry Char).reload env).2 = env.reload.index id := by
  rw [represents.reload.index key]
  unfold Entry.reload
  dsimp only
  rw [represents.find key]
  cases found : map pairs id with
  | none => rfl
  | some value => simp [represents.makeEntry_found key found]

/-- One change: its update of the map, if what it stores is not empty. -/
theorem change (represents : Represents env pairs) (change : Change Char) (valid : change.Valid)
    (stores : change.StoresText (map pairs)) :
    ∃ pairs', Represents (change.apply env) pairs' ∧ map pairs' = change.update (map pairs) := by
  cases change with
  | set id value => exact ⟨_, represents.set valid.1 valid.2 stores, map_put⟩
  | emplace id value =>
    simp only [Change.apply, Change.update, Environment.emplace, represents.find valid.1]
    cases found : map pairs id with
    | none => exact ⟨_, (represents.set valid.1 valid.2 (stores found)).reload, map_put⟩
    | some old => exact ⟨_, represents, rfl⟩
  | assign id value =>
    simp only [Change.apply, represents.index valid.1]
    exact ⟨_, represents.assign valid.1 valid.2 stores _, map_put⟩
  | assignAll id value =>
    simp only [Change.apply, represents.index valid.1]
    exact ⟨_, represents.assign valid.1 (free_intercalate valid.2) stores _, map_put⟩
  | append id value =>
    simp only [Change.apply, Change.update, Entry.append, represents.index valid.1]
    cases found : map pairs id with
    | none => exact ⟨_, represents.assign valid.1 valid.2 (stores found) _, map_put⟩
    | some old =>
      have member := (map_eq_some represents.distinct).mp found
      have free : nullChar ∉ old ++ [envSeperator] ++ value := by
        simp only [List.mem_append, List.mem_singleton, not_or]
        exact ⟨⟨represents.free member, EnvironmentChar.envSeperator_ne_nullChar.symm⟩, valid.2⟩
      exact ⟨_, represents.assign valid.1 free (by simp) _, map_put⟩
  | clearEntry id =>
    simp only [Change.apply, represents.index valid]
    exact ⟨_, (represents.reset valid).reload, map_remove represents.distinct⟩
  | erase id => exact ⟨_, (represents.reset valid).reload, map_remove represents.distinct⟩
  | clear => exact ⟨_, represents.clear, rfl⟩

end Represents

namespace Change

/-- A change that stores no text gives the empty value to a name. -/
theorem update_of_not_storesText {map : List Char → Option (List Char)} {change : Change Char} (valid : change.Valid)
    (stores : ¬ change.StoresText map) : ∃ id, Name id ∧ change.update map id = some [] := by
  cases change with
  | set id value =>
    refine ⟨id, valid.1, ?_⟩
    rw [update, Function.update_self, not_not.mp stores]
  | emplace id value =>
    obtain ⟨absent, nil⟩ := Classical.not_imp.mp stores
    refine ⟨id, valid.1, ?_⟩
    rw [update, if_pos absent, Function.update_self, not_not.mp nil]
  | assign id value =>
    refine ⟨id, valid.1, ?_⟩
    rw [update, Function.update_self, not_not.mp stores]
  | assignAll id value =>
    refine ⟨id, valid.1, ?_⟩
    rw [update, Function.update_self, not_not.mp stores]
  | append id value =>
    obtain ⟨absent, nil⟩ := Classical.not_imp.mp stores
    refine ⟨id, valid.1, ?_⟩
    rw [update, Function.update_self, absent, not_not.mp nil]
  | clearEntry id => exact absurd trivial stores
  | erase id => exact absurd trivial stores
  | clear => exact absurd trivial stores

theorem storesText_of_agrees {env : Environment Char} {map : List Char → Option (List Char)} {change : Change Char}
    (valid : change.Valid) (agrees : Agrees env (change.update map)) : change.StoresText map := by
  by_contra stores
  obtain ⟨id, key, nil⟩ := update_of_not_storesText valid stores
  have found := agrees.find id key
  rw [nil] at found
  exact find_ne_render_nil env found

/-- An environment and the map of its history. -/
def step (state : Environment Char × (List Char → Option (List Char))) (change : Change Char) :
    Option (Environment Char × (List Char → Option (List Char))) :=
  some (change.apply state.1, change.update state.2)

/-- In every state of a history the environment is the map if and only if no step of the history
stores an empty value. -/
theorem agrees_iff_storesText (changes : List (Change Char)) (valid : ∀ change ∈ changes, change.Valid) :
    (∀ front final, front <+: changes → run step (Environment.empty, fun _ => none) front = some final →
        Agrees final.1 final.2) ↔
      Admits step (fun state change => change.StoresText state.2) (Environment.empty, fun _ => none) changes := by
  have general (env : Environment Char) (pairs : List (List Char × List Char)) (represents : Represents env pairs) :
      (∀ front final, front <+: changes → run step (env, map pairs) front = some final → Agrees final.1 final.2) ↔
        Admits step (fun state change => change.StoresText state.2) (env, map pairs) changes := by
    induction changes generalizing env pairs with
    | nil =>
      refine ⟨fun _ => trivial, fun _ front final within reached => ?_⟩
      rw [List.prefix_nil.mp within] at reached
      cases reached
      exact represents.agrees
    | cons change rest ih =>
      have here := valid change List.mem_cons_self
      have later := ih fun other member => valid other (List.mem_cons_of_mem change member)
      rw [admits_cons rfl]
      constructor
      · intro agrees
        have stores : change.StoresText (map pairs) :=
          storesText_of_agrees here (agrees [change] _ ((List.prefix_append [change] rest)) rfl)
        obtain ⟨next, represents', same⟩ := represents.change change here stores
        refine ⟨stores, ?_⟩
        rw [← same]
        apply (later _ next represents').mp
        intro front final within reached
        apply agrees (change :: front) final (List.cons_prefix_cons.mpr ⟨rfl, within⟩)
        exact run_cons.mpr ⟨_, rfl, same ▸ reached⟩
      · intro admitted front final within reached
        obtain ⟨next, represents', same⟩ := represents.change change here admitted.1
        cases front with
        | nil =>
          cases reached
          exact represents.agrees
        | cons first front =>
          obtain ⟨rfl, inside⟩ := List.cons_prefix_cons.mp within
          obtain ⟨_, taken, reached⟩ := run_cons.mp reached
          cases taken
          rw [← same] at admitted reached
          exact (later _ next represents').mpr admitted.2 front final inside reached
  exact general Environment.empty [] .empty

/-- AB=x, A=y, A=y:, then without AB. -/
theorem agrees_prefixNames :
    (∀ front final,
      front <+: ([.set [0x41, 0x42] [0x78], .assign [0x41] [0x79], .append [0x41] [], .erase [0x41, 0x42]] :
        List (Change UInt8)) →
      run step (Environment.empty, fun _ => none) front = some final → Agrees final.1 final.2) ∧
      (([.set [0x41, 0x42] [0x78], .assign [0x41] [0x79], .append [0x41] [], .erase [0x41, 0x42]] :
        List (Change UInt8)).foldl Change.apply Environment.empty).find [0x41] = some [0x41, 0x3d, 0x79, 0x3a] :=
  ⟨(agrees_iff_storesText _ (by decide)).mpr (by simp [Admits, step, StoresText, update]), by decide⟩

/-- A name with an empty value is iterated over and not found. -/
theorem not_agrees_emptyValue :
    (Change.set [0x41] [] : Change UInt8).Valid ∧
      ∃ final, run step (Environment.empty, fun _ => none) [(.set [0x41] [] : Change UInt8)] = some final ∧
        final.2 [0x41] = some [] ∧ final.1.entries = [⟨[0x41], some []⟩] ∧ final.1.find [0x41] = none ∧
        final.1.count [0x41] = 0 ∧ final.1.at? [0x41] = none ∧ ¬ Agrees final.1 final.2 := by
  refine ⟨by decide, _, rfl, by decide, by decide, by decide, by decide, by decide, fun agrees => ?_⟩
  have found := agrees.count [0x41] (by decide)
  revert found
  decide

end Change

end BoostProcess.V1
