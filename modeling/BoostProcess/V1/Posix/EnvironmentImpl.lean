import BoostProcess.V1.Environment

/-! basic_environment_impl on POSIX: the strings, the array of pointers to them and get.

A pointer is to the first character of a string, so it is kept as the index of the string. The
strings need not be entries: an environment that has been inherited is taken as it is.
-/

set_option autoImplicit false

namespace BoostProcess.V1.Posix

open Entries

variable {Char : Type} [EnvironmentChar Char]

structure EnvironmentImpl (Char : Type) where
  /-- `_data` -/
  data : List (List Char)
  /-- `_env_arr`, with none for a null pointer. -/
  envArr : List (Option Nat)
  deriving DecidableEq

namespace EnvironmentImpl

/-- The loop of `_load_var` from the string with this index on. -/
def loadVar (index : Nat) : List (List Char) → List (List Char) × List (Option Nat)
  | [] => ([], [none])
  | val :: rest =>
    let (data, ret) := loadVar (index + 1) rest
    ((if val = [] then [nullChar] else val) :: data, some index :: ret)

def reload (env : EnvironmentImpl Char) : EnvironmentImpl Char := ⟨(loadVar 0 env.data).1, (loadVar 0 env.data).2⟩

/-- The environment that is read from the strings of another one. -/
def ofNative (strings : List (List Char)) : EnvironmentImpl Char := reload ⟨strings, []⟩

section
variable [DecidableEq Char]

/-- What is constructed from the pointer to the sign behind the id. -/
def get (env : EnvironmentImpl Char) (id : List Char) : List Char :=
  match env.data.find? (Environment.holds id) with
  | none => []
  | some st => pointed (st.drop id.length)

def set (env : EnvironmentImpl Char) (id value : List Char) : EnvironmentImpl Char :=
  reload { env with data := Environment.setData id value env.data }

def reset (env : EnvironmentImpl Char) (id : List Char) : EnvironmentImpl Char :=
  reload { env with data := env.data.eraseP (Environment.holds id) }

end

/-! ## Loading -/

/-- A pointer to each string and a null pointer. -/
def Listed (env : EnvironmentImpl Char) : Prop := env.envArr = (List.range env.data.length).map some ++ [none]

theorem loadVar_data (index : Nat) (data : List (List Char)) : (loadVar index data).1 = Environment.loadVar data := by
  induction data generalizing index with
  | nil => rfl
  | cons val rest ih => exact congrArg _ (ih (index + 1))

theorem loadVar_pointers (index : Nat) (data : List (List Char)) :
    (loadVar index data).2 = (List.range' index data.length).map some ++ [none] := by
  induction data generalizing index with
  | nil => rfl
  | cons val rest ih => exact congrArg _ (ih (index + 1))

theorem reload_listed (env : EnvironmentImpl Char) : Listed env.reload := by
  have lengths : (loadVar 0 env.data).1.length = env.data.length := by
    rw [loadVar_data]
    exact List.length_map _
  unfold Listed reload
  rw [lengths, loadVar_pointers, List.range_eq_range']

omit [EnvironmentChar Char] in
theorem map_range_getElem? (data : List (List Char)) :
    (List.range data.length).map (fun index => data[index]?.getD []) = data := by
  apply List.ext_getElem
  · rw [List.length_map, List.length_range]
  · intro index _ bound
    simp [bound]

/-- The environment with the strings that the pointers are to, up to the null pointer. -/
def view (env : EnvironmentImpl Char) : Environment Char :=
  ⟨env.data, (env.envArr.takeWhile Option.isSome).map fun pointer => (pointer.bind (env.data[·]?)).getD []⟩

omit [EnvironmentChar Char] in
theorem view_of_listed {env : EnvironmentImpl Char} (listed : Listed env) : env.view = ⟨env.data, env.data⟩ := by
  unfold view
  rw [listed, Blocks.takeWhile_null, List.map_map]
  exact congrArg _ (map_range_getElem? env.data)

theorem view_reload (env : EnvironmentImpl Char) (envImpl : List (List Char)) :
    env.reload.view = Environment.reload ⟨env.data, envImpl⟩ := by
  rw [view_of_listed (reload_listed env)]
  unfold reload Environment.reload
  rw [loadVar_data]

section
variable [DecidableEq Char]

/-- Through its pointers the environment is the one that lookups scan. -/
theorem view_set (env : EnvironmentImpl Char) (id value : List Char) : (env.set id value).view = env.view.set id value :=
  view_reload _ _

theorem view_reset (env : EnvironmentImpl Char) (id : List Char) : (env.reset id).view = env.view.reset id :=
  view_reload _ _

/-! ## What set and reset leave alone -/

/-- Every string is an entry, and no two have one name. -/
structure Formed (data : List (List Char)) : Prop where
  entry : ∀ st ∈ data, equalSign ∈ st ∧ nameOf st ≠ []
  distinct : (data.map nameOf).Nodup

/-- The names are unique, the entries of other names are the same in the same order, the ones of
this name are as given, and the pointers are those to the strings. -/
structure Framed (before after : EnvironmentImpl Char) (id : List Char) (own : List (List Char)) : Prop where
  formed : Formed after.data
  others : after.data.filter (nameOf · ≠ id) = before.data.filter (nameOf · ≠ id)
  own : after.data.filter (nameOf · = id) = own
  listed : Listed after

/-- Each string with its name. -/
def named (data : List (List Char)) : List (List Char × List Char) := data.map fun st => (nameOf st, st)

variable {data : List (List Char)} {id value : List Char}

theorem keys_named (data : List (List Char)) : keys (named data) = data.map nameOf := by
  unfold keys named
  rw [List.map_map]
  rfl

theorem holds_iff_nameOf (key : equalSign ∉ id) {st : List Char} :
    Environment.holds id st = true ↔ nameOf st = id ∧ equalSign ∈ st := by
  rw [holds_iff, prefix_iff_nameOf key]

theorem map_snd_named (data : List (List Char)) : (named data).map Prod.snd = data := by
  unfold named
  rw [List.map_map]
  exact List.map_id data

/-- Pairs that have the names of their strings are those of the strings. -/
theorem named_map_snd {pairs : List (List Char × List Char)} (names : ∀ pair ∈ pairs, nameOf pair.2 = pair.1) :
    named (pairs.map Prod.snd) = pairs := by
  unfold named
  have same : ∀ pair ∈ pairs, ((fun st => (nameOf st, st)) ∘ Prod.snd) pair = pair :=
    fun pair member => Prod.ext (names pair member) rfl
  rw [List.map_map]
  exact (List.map_congr_left same).trans (List.map_id pairs)

theorem nameOf_of_named {pair : List Char × List Char} (member : pair ∈ named data) : nameOf pair.2 = pair.1 := by
  obtain ⟨st, -, rfl⟩ := List.mem_map.mp member
  rfl

theorem holds_named (key : equalSign ∉ id) (entries : ∀ st ∈ data, equalSign ∈ st) :
    ∀ pair ∈ named data, Environment.holds id pair.2 = decide (pair.1 = id) := by
  intro pair member
  obtain ⟨st, stored, rfl⟩ := List.mem_map.mp member
  rw [Bool.eq_iff_iff, holds_iff_nameOf key, decide_eq_true_eq]
  exact and_iff_left (entries st stored)

theorem named_setData (key : equalSign ∉ id) (entries : ∀ st ∈ data, equalSign ∈ st) :
    named (Environment.setData id value data) = put id (render id value) (named data) := by
  have strings := @setData_map _ _ _ _ id value Prod.snd (named data) (holds_named key entries) (render id value) rfl
  rw [map_snd_named] at strings
  rw [strings]
  apply named_map_snd
  intro pair member
  cases mem_put member with
  | inl new =>
    rw [new]
    exact nameOf_render key
  | inr old => exact nameOf_of_named old

theorem named_eraseP (key : equalSign ∉ id) (entries : ∀ st ∈ data, equalSign ∈ st) :
    named (data.eraseP (Environment.holds id)) = remove id (named data) := by
  have strings := eraseP_map (holds_named key entries)
  rw [map_snd_named] at strings
  rw [strings]
  exact named_map_snd fun pair member => nameOf_of_named (mem_remove member)

/-- A condition on names, of the strings and of the pairs. -/
theorem map_snd_filter_named (condition : List Char → Bool) (data : List (List Char)) :
    ((named data).filter fun pair => condition pair.1).map Prod.snd = data.filter fun st => condition (nameOf st) := by
  unfold named
  rw [List.filter_map, List.map_map]
  exact List.map_id _

omit [DecidableEq Char] in
theorem loadVar_entries (entries : ∀ st ∈ data, equalSign ∈ st) : Environment.loadVar data = data := by
  have same : ∀ st ∈ data, (if st = [] then [nullChar] else st) = st :=
    fun st member => if_neg (List.ne_nil_of_mem (entries st member))
  exact (List.map_congr_left same).trans (List.map_id data)

/-- What a change makes of the pairs, it makes of the strings. -/
theorem framed_reload {env : EnvironmentImpl Char} {own : List (List Char × List Char)}
    (entry : ∀ st ∈ data, equalSign ∈ st ∧ nameOf st ≠ []) (distinct : (keys (named data)).Nodup)
    (others : (named data).filter (·.1 ≠ id) = (named env.data).filter (·.1 ≠ id))
    (kept : (named data).filter (·.1 = id) = own) (envArr : List (Option Nat)) :
    Framed env (reload ⟨data, envArr⟩) id (own.map Prod.snd) := by
  have loaded : (reload ⟨data, envArr⟩).data = data := by
    change (loadVar 0 data).1 = data
    rw [loadVar_data, loadVar_entries fun st member => (entry st member).1]
  constructor
  · rw [loaded]
    exact ⟨entry, keys_named data ▸ distinct⟩
  · rw [loaded, ← map_snd_filter_named fun name => name ≠ id, others]
    exact map_snd_filter_named (fun name => name ≠ id) env.data
  · rw [loaded, ← kept]
    exact (map_snd_filter_named (fun name => name = id) data).symm
  · exact reload_listed _

/-- set leaves one entry of the id and reset leaves none, whatever the other entries are. -/
theorem set_reset_framed (env : EnvironmentImpl Char) (formed : Formed env.data) (id : List Char) (key : Name id)
    (value : List Char) :
    Framed env (env.set id value) id [render id value] ∧ Framed env (env.reset id) id [] := by
  have signs : ∀ st ∈ env.data, equalSign ∈ st := fun st member => (formed.entry st member).1
  have distinct : (keys (named env.data)).Nodup := (keys_named env.data).symm ▸ formed.distinct
  have put_named := @named_setData _ _ _ env.data id value key.2.1 signs
  have remove_named := @named_eraseP _ _ _ env.data id key.2.1 signs
  constructor
  · change Framed env _ id (List.map Prod.snd [(id, render id value)])
    apply framed_reload
    · intro st member
      have pair : (nameOf st, st) ∈ put id (render id value) (named env.data) := put_named ▸ List.mem_map.mpr ⟨st, member, rfl⟩
      cases mem_put pair with
      | inl new =>
        obtain ⟨name, text⟩ := Prod.mk.inj new
        rw [name, text]
        exact ⟨List.mem_append_right id List.mem_cons_self, key.1⟩
      | inr old =>
        obtain ⟨other, stored, same⟩ := List.mem_map.mp old
        exact (Prod.mk.inj same).2 ▸ formed.entry other stored
    · exact put_named ▸ nodup_put distinct
    · rw [put_named]
      exact filter_ne_put
    · rw [put_named]
      exact filter_eq_put distinct
  · change Framed env _ id (List.map Prod.snd ([] : List (List Char × List Char)))
    apply framed_reload
    · exact fun st member => formed.entry st (List.mem_of_mem_eraseP member)
    · exact remove_named ▸ nodup_remove distinct
    · rw [remove_named]
      exact filter_ne_remove
    · rw [remove_named]
      exact filter_eq_nil (not_mem_keys_remove distinct)

/-- With AB=x and A=y, A is set to nothing and AB stays. -/
theorem set_reset_framed_prefix :
    let data : List (List UInt8) := [[0x41, 0x42, 0x3d, 0x78], [0x41, 0x3d, 0x79]]
    Framed (ofNative data) ((ofNative data).set [0x41] []) [0x41] [[0x41, 0x3d]] ∧
      Framed (ofNative data) ((ofNative data).reset [0x41]) [0x41] [] :=
  set_reset_framed (ofNative [[0x41, 0x42, 0x3d, 0x78], [0x41, 0x3d, 0x79]]) ⟨by decide, by decide⟩ [0x41] (by decide) []

end

/-! ## What get returns -/

section
variable [DecidableEq Char]

/-- The value of a name: what the first string that starts with the name and the sign has behind them. -/
def live (data : List (List Char)) (name : List Char) : Option (List Char) :=
  (data.find? fun st => name ++ [equalSign] <+: st).map fun st => st.drop (name.length + 1)

inductive Call (Char : Type) where
  | set (id value : List Char)
  | reset (id : List Char)

def Call.name : Call Char → List Char
  | set id _ | reset id => id

def Call.apply (env : EnvironmentImpl Char) : Call Char → EnvironmentImpl Char
  | set id value => env.set id value
  | reset id => env.reset id

variable {data : List (List Char)} {id name value : List Char}

theorem live_eq (data : List (List Char)) (name : List Char) :
    live data name = (data.find? (Environment.holds name)).map fun st => st.drop (name.length + 1) := by
  have same : (fun st : List Char => decide (name ++ [equalSign] <+: st)) = Environment.holds name := by
    funext st
    rw [Bool.eq_iff_iff, holds_iff, decide_eq_true_eq]
  unfold live
  rw [same]

/-- What loading puts into an empty string makes it no entry. -/
theorem find_loadVar (data : List (List Char)) (name : List Char) :
    (Environment.loadVar data).find? (Environment.holds name) = data.find? (Environment.holds name) := by
  induction data with
  | nil => rfl
  | cons st rest ih =>
    unfold Environment.loadVar at ih ⊢
    rw [List.map_cons, List.find?_cons, List.find?_cons, ih]
    by_cases empty : st = []
    · have absent : Environment.holds name [nullChar] = false := by
        cases name with
        | nil => simp [Environment.holds, EnvironmentChar.equalSign_ne_nullChar.symm]
        | cons c name => simp [Environment.holds]
      rw [if_pos empty, empty, absent]
      rfl
    · rw [if_neg empty]

theorem find_setData (id value : List Char) (data : List (List Char)) :
    (Environment.setData id value data).find? (Environment.holds id) = some (render id value) := by
  have here : Environment.holds id (render id value) = true := holds_iff.mpr ⟨value, List.append_assoc id [equalSign] value⟩
  induction data with
  | nil => exact List.find?_cons_of_pos here
  | cons st rest ih =>
    unfold Environment.setData
    split
    · exact List.find?_cons_of_pos here
    · rename_i other
      rw [List.find?_cons_of_neg other, ih]

/-- A string that holds one id holds no other one. -/
theorem holds_other (key : equalSign ∉ id) (unsigned : equalSign ∉ name) (different : id ≠ name) {st : List Char}
    (found : Environment.holds id st = true) : Environment.holds name st = false := by
  rw [← Bool.not_eq_true, holds_iff_nameOf unsigned, ((holds_iff_nameOf key).mp found).1]
  exact fun both => different both.1

theorem find_setData_other (key : equalSign ∉ id) (unsigned : equalSign ∉ name) (different : id ≠ name) :
    (Environment.setData id value data).find? (Environment.holds name) = data.find? (Environment.holds name) := by
  have here : Environment.holds id (render id value) = true := holds_iff.mpr ⟨value, List.append_assoc id [equalSign] value⟩
  have absent := holds_other key unsigned different here
  induction data with
  | nil => simp [Environment.setData, absent]
  | cons st rest ih =>
    unfold Environment.setData
    split
    · rename_i found
      rw [List.find?_cons, absent, List.find?_cons, holds_other key unsigned different found]
    · rw [List.find?_cons, ih, List.find?_cons]

theorem find_eraseP_other (key : equalSign ∉ id) (unsigned : equalSign ∉ name) (different : id ≠ name) :
    (data.eraseP (Environment.holds id)).find? (Environment.holds name) = data.find? (Environment.holds name) := by
  induction data with
  | nil => rfl
  | cons st rest ih =>
    rw [List.eraseP_cons]
    cases found : Environment.holds id st with
    | true =>
      rw [List.find?_cons, holds_other key unsigned different found]
      rfl
    | false =>
      rw [cond_false, List.find?_cons, ih, List.find?_cons]

theorem live_reload (env : EnvironmentImpl Char) (name : List Char) : live env.reload.data name = live env.data name := by
  unfold reload
  rw [live_eq, live_eq, loadVar_data, find_loadVar]

theorem live_set (env : EnvironmentImpl Char) (id value : List Char) : live (env.set id value).data id = some value := by
  unfold set
  rw [live_reload, live_eq, find_setData, Option.map_some, render, List.drop_length_add_append]
  rfl

/-- A call for one name changes the value of no other one. -/
theorem live_apply_other {call : Call Char} (key : equalSign ∉ call.name) (unsigned : equalSign ∉ name)
    (different : call.name ≠ name) (env : EnvironmentImpl Char) :
    live (call.apply env).data name = live env.data name := by
  cases call with
  | set id value =>
    change live (env.set id value).data name = _
    unfold set
    rw [live_reload, live_eq, live_eq]
    exact congrArg _ (find_setData_other key unsigned different)
  | reset id =>
    change live (env.reset id).data name = _
    unfold reset
    rw [live_reload, live_eq, live_eq]
    exact congrArg _ (find_eraseP_other key unsigned different)

theorem live_calls_other (unsigned : equalSign ∉ name) {calls : List (Call Char)}
    (others : ∀ call ∈ calls, equalSign ∉ call.name ∧ call.name ≠ name) (env : EnvironmentImpl Char) :
    live (calls.foldl Call.apply env).data name = live env.data name := by
  induction calls generalizing env with
  | nil => rfl
  | cons call rest ih =>
    obtain ⟨key, different⟩ := others call List.mem_cons_self
    rw [List.foldl_cons, ih fun other member => others other (List.mem_cons_of_mem call member)]
    exact live_apply_other key unsigned different env

/-- What is returned begins with the sign. -/
theorem get_eq (env : EnvironmentImpl Char) (name : List Char) :
    env.get name = match live env.data name with
      | none => []
      | some value => equalSign :: pointed value := by
  unfold get
  rw [live_eq]
  cases found : env.data.find? (Environment.holds name) with
  | none => rfl
  | some st =>
    obtain ⟨rest, rfl⟩ := holds_iff.mp (List.find?_some found)
    simp [pointed, EnvironmentChar.equalSign_ne_nullChar]

/-- A value that begins with the sign and goes on as a string of its own would never end. -/
theorem equalSign_pointed_ne (value : List Char) : equalSign :: pointed value ≠ value := by
  intro same
  have free : nullChar ∉ value := by
    rw [← same, List.mem_cons, not_or]
    constructor
    · exact EnvironmentChar.equalSign_ne_nullChar.symm
    · intro member
      unfold pointed at member
      have other := List.mem_takeWhile_imp member
      simp at other
  rw [pointed_eq_self free] at same
  exact List.cons_ne_self equalSign value same

/-- get returns the value of a name only if it has none. After a set, and whatever happens to
other names, it does not. -/
theorem get_eq_live_iff (env : EnvironmentImpl Char) (name : List Char) :
    (env.get name = (live env.data name).getD [] ↔ live env.data name = none) ∧
      (equalSign ∉ name →
        ∀ value (calls : List (Call Char)), (∀ call ∈ calls, equalSign ∉ call.name ∧ call.name ≠ name) →
          let final := calls.foldl Call.apply (env.set name value)
          live final.data name = some value ∧ final.get name = equalSign :: pointed value ∧ final.get name ≠ value) := by
  constructor
  · rw [get_eq]
    cases live env.data name with
    | none => exact iff_of_true rfl rfl
    | some value => exact iff_of_false (equalSign_pointed_ne value) nofun
  · intro unsigned value calls others
    have stored := (live_calls_other unsigned others (env.set name value)).trans (live_set env name value)
    have returned : (calls.foldl Call.apply (env.set name value)).get name = equalSign :: pointed value := by
      rw [get_eq, stored]
    refine ⟨stored, returned, ?_⟩
    rw [returned]
    exact equalSign_pointed_ne value

end

/-- A is set to x in an empty environment, and then AB to y. -/
theorem get_eq_live_iff_prefix :
    let final := ([.set [0x41, 0x42] [0x79]] : List (Call UInt8)).foldl Call.apply ((ofNative []).set [0x41] [0x78])
    live final.data [0x41] = some [0x78] ∧ final.get [0x41] = [0x3d, 0x78] ∧ final.get [0x41] ≠ [0x78] :=
  (get_eq_live_iff (ofNative []) [0x41]).2 (by decide) [0x78] [.set [0x41, 0x42] [0x79]] (by decide)

/-- A is set to x, and get returns `=x`. -/
theorem get_returns_sign :
    let env : EnvironmentImpl UInt8 := (ofNative []).set [0x41] [0x78]
    env.data = [[0x41, 0x3d, 0x78]] ∧ env.get [0x41] = [0x3d, 0x78] ∧ env.get [0x41] ≠ [0x78] := by
  decide

end EnvironmentImpl
end BoostProcess.V1.Posix
