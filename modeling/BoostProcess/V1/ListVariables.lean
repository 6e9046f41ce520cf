import BoostProcess.Library.Delimited
import BoostProcess.V1.Posix.EnvironmentImpl
import BoostProcess.V1.Windows.Environment

/-! Variables that are lists: entries that are assigned a list, and the initializer of a launch.

An entry joins with a separator in front of all elements but the first, which is known by its
address; the initializer puts one behind each element and takes the last one away.
-/

set_option autoImplicit false

namespace BoostProcess.V1

variable {Char : Type} [EnvironmentChar Char]

/-- The loop of `assign`: `&v != &value.front()` for the element at this distance from the front. -/
def joinLoop (data : List Char) (distance : Nat) : List (List Char) → List Char
  | [] => data
  | v :: rest => joinLoop ((if distance ≠ 0 then data ++ [envSeperator] else data) ++ v) (distance + 1) rest

/-- `make_env_string`; for an empty string `resize(size() - 1)` throws. -/
def makeEnvString (value : List (List Char)) : Option (List Char) :=
  let s := value.foldl (fun s val => s ++ val ++ [envSeperator]) []
  if s.length = 0 then none else some (s.take (s.length - 1))

section
variable [DecidableEq Char]

/-- `assign` of a list, on POSIX. -/
def Entry.assignList (entry : Entry Char) (env : Environment Char) (value : List (List Char)) :
    Environment Char × Entry Char :=
  entry.assign env (joinLoop [] 0 value)

end

/-! ## Both joins -/

theorem joinLoop_behind (data : List Char) (distance : Nat) (value : List (List Char)) :
    joinLoop data (distance + 1) value = data ++ Delimited.following envSeperator value := by
  induction value generalizing data distance with
  | nil => exact (List.append_nil data).symm
  | cons v rest ih =>
    rw [joinLoop, if_pos (Nat.succ_ne_zero distance), ih, Delimited.following_cons]
    simp

theorem joinLoop_eq (value : List (List Char)) : joinLoop [] 0 value = [envSeperator].intercalate value := by
  cases value with
  | nil => rfl
  | cons v rest => rw [joinLoop, joinLoop_behind, Delimited.intercalate_cons, if_neg (not_not_intro rfl), List.nil_append]

theorem foldl_terminated (s : List Char) (value : List (List Char)) :
    value.foldl (fun s val => s ++ val ++ [envSeperator]) s = s ++ Blocks.terminated envSeperator value := by
  induction value generalizing s with
  | nil => exact (List.append_nil s).symm
  | cons val rest ih =>
    rw [List.foldl_cons, ih, Blocks.terminated_cons]
    simp

theorem terminated_eq_concat (v : List Char) (rest : List (List Char)) :
    Blocks.terminated envSeperator (v :: rest) = [envSeperator].intercalate (v :: rest) ++ [envSeperator] := by
  induction rest generalizing v with
  | nil => simp [Blocks.terminated]
  | cons next rest ih =>
    rw [Blocks.terminated_cons, ih, List.intercalate_cons_cons]
    simp

/-- Without its last separator the one join is the other, unless there is none. -/
theorem makeEnvString_eq (value : List (List Char)) :
    makeEnvString value = if value = [] then none else some (joinLoop [] 0 value) := by
  unfold makeEnvString
  rw [foldl_terminated, List.nil_append]
  cases value with
  | nil => rfl
  | cons v rest =>
    rw [terminated_eq_concat, joinLoop_eq, if_neg (List.cons_ne_nil v rest)]
    simp

section
variable [DecidableEq Char]

/-- The initializer stores what the entry stores, in any environment, if and only if the list is
not empty. -/
theorem makeEnvString_eq_iff (list : List (List Char)) :
    (makeEnvString list = some (joinLoop [] 0 list) ↔ list ≠ []) ∧
      ∀ (env : Environment Char) (key : List Char),
        (makeEnvString list).map (fun value => ((env.index key).assign env value).1) =
            some ((env.index key).assignList env list).1 ↔ list ≠ [] := by
  rw [makeEnvString_eq]
  by_cases empty : list = []
  · rw [if_pos empty]
    exact ⟨iff_of_false nofun (not_not_intro empty), fun env key => iff_of_false nofun (not_not_intro empty)⟩
  · rw [if_neg empty]
    exact ⟨iff_of_true rfl empty, fun env key => iff_of_true rfl empty⟩

/-- For no elements the entry stores an empty value, and the initializer throws. -/
theorem makeEnvString_empty :
    makeEnvString ([] : List (List UInt8)) = none ∧ makeEnvString ([] : List (List UInt8)) ≠ some (joinLoop [] 0 []) ∧
      ((Environment.empty : Environment UInt8).index [0x41]).assignList Environment.empty [] =
        (⟨[[0x41, 0x3d]], [[0x41, 0x3d]]⟩, ⟨[0x41], none⟩) := by
  decide

/-! ## From a list to a variable and back -/

theorem assignList_eq_assignAll (entry : Entry Char) (env : Environment Char) (list : List (List Char)) :
    entry.assignList env list = entry.assignAll env list := by
  unfold Entry.assignList Entry.assignAll
  rw [joinLoop_eq]

namespace Environment

end Environment

/-! ## The block of Windows -/

namespace Windows

instance : EnvironmentChar UInt16 := ⟨0x3d, 0, 0x3b, by decide, by decide⟩

namespace Environment

/-- What the pointers are to, up to the null pointer. -/
def pointees (env : Environment Char) : List (List Char) := (env.envArr.takeWhile Option.isSome).filterMap id

def find (env : Environment Char) (key : List Char) : Option (List Char) :=
  env.pointees.find? (V1.Environment.matchesKey key)

end Environment

/-- `assign` of a list; none is a read outside of the block. -/
def assignList (entry : Entry Char) (env : Environment Char) (value : List (List Char)) :
    Option (Environment Char × Entry Char) :=
  (env.set entry.name (joinLoop [] 0 value)).bind fun env =>
    let data := (env.find entry.name).bind fun st => (makeEntry st).data
    env.reload.map fun env => (env, { entry with data })

variable {id : Name Char}

omit [DecidableEq Char] in
theorem Name.isName (id : Name Char) : V1.Name id.text := ⟨id.filled, id.unsigned, id.free⟩

end Windows

end

end BoostProcess.V1
