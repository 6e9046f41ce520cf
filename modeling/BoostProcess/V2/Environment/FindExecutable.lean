import BoostProcess.V2.Environment.OwningPair

/-! find_executable on POSIX: the first entry with the key PATH, and the first directory of its
value in which there is an executable of some name.
-/

set_option autoImplicit false

namespace BoostProcess.V2.Environment

variable {Path Error : Type}

/-- A range to search, by what its elements can be converted to: to a view of a pair, or only to
a pair. -/
inductive Entries where
  | views (entries : List (CStringRef 8))
  | pairs (entries : List (KeyValuePair 8))

/-- `find_key` for entries that are views. -/
def findKeyView (env : List (CStringRef 8)) (ky : KeyView 8) : CStringRef 8 :=
  match env.find? fun vp => (KeyValuePairView.key vp).equal id ky with
  | some itr => KeyValuePairView.value itr
  | none => ⟨[], List.not_mem_nil⟩

/-- `find_key` for entries that have to be copied; the value is copied, too. -/
def findKeyPair (env : List (KeyValuePair 8)) (ky : KeyView 8) : Value 8 :=
  match env.find? fun vp => vp.key.equal id ky with
  | some itr => ⟨itr.value.text⟩
  | none => ⟨[]⟩

/-- `"PATH"` -/
def pathKey : KeyView 8 := Key.view ⟨[80#8, 65#8, 84#8, 72#8]⟩

/-- What the loop of find_executable runs over; none if it never ends. -/
def Entries.directories : Entries → Option (List (List (BitVec 8)))
  | .views env => ValueView.elements .posix (findKeyView env pathKey)
  | .pairs env => (findKeyPair env pathKey).elements .posix

/-- Paths, and what the system says about them. Where has_x_access is always true,
is_executable answers whatever is_regular_file answers. -/
structure FileSystem (Path Error : Type) where
  empty : Path
  /-- `path(first, last) / name` -/
  append : List (BitVec 8) → Path → Path
  isRegularFile : Path → Bool × Option Error
  hasXAccess : Path → Bool

namespace FileSystem

/-- `is_executable(pth, ec)`, with what it leaves in ec. -/
def isExecutable (fs : FileSystem Path Error) (pth : Path) : Bool × Option Error :=
  ((fs.isRegularFile pth).1 && fs.hasXAccess pth, (fs.isRegularFile pth).2)

/-- The loop of find_executable; each directory has an error code of its own. -/
def search (fs : FileSystem Path Error) (name : Path) : List (List (BitVec 8)) → Path
  | [] => fs.empty
  | ppView :: rest =>
    let p := fs.append ppView name
    let (isExec, ec) := fs.isExecutable p
    if ec.isNone && isExec then p else fs.search name rest

def findExecutable (fs : FileSystem Path Error) (name : Path) (env : Entries) : Option Path :=
  env.directories.map (fs.search name)

end FileSystem

/-! ## The directories -/

/-- Keys and values of the entries. -/
def Entries.split : Entries → List (List (BitVec 8) × CStringRef 8)
  | .views env => env.map fun vp => ((KeyValuePairView.key vp).chars, KeyValuePairView.value vp)
  | .pairs env => env.map fun vp => (vp.key.chars, vp.value)

/-- The list that the first entry with the key PATH has for its value. -/
inductive PathDirectories (entries : List (List (BitVec 8) × CStringRef 8)) : List (List (BitVec 8)) → Prop
  | found {front rest : List (List (BitVec 8) × CStringRef 8)} {value : CStringRef 8} {dirs : List (List (BitVec 8))} :
    entries = front ++ (pathKey.chars, value) :: rest → (∀ entry ∈ front, entry.1 ≠ pathKey.chars) →
      ValueView.elements .posix value = some dirs → PathDirectories entries dirs
  | absent : (∀ entry ∈ entries, entry.1 ≠ pathKey.chars) → PathDirectories entries []

theorem equal_pathKey (key : KeyView 8) : key.equal id pathKey = decide (key.chars = pathKey.chars) := by
  rw [Bool.eq_iff_iff, KeyView.equal_iff, List.map_id, List.map_id, decide_eq_true_iff]

theorem elements_nothing : ValueView.elements .posix ⟨[], List.not_mem_nil⟩ = some [] := by
  rw [ValueView.elements_eq_shown]
  rfl

theorem elements_copy (value : CStringRef 8) : (Value.mk value.text).elements .posix = ValueView.elements .posix value := by
  rw [ValueView.elements_eq_shown, Value.elements_eq_shown .posix value.free]

/-- Both overloads of find_key find the first entry with the key. -/
theorem directories_eq (env : Entries) :
    env.directories =
      match env.split.find? fun entry => entry.1 = pathKey.chars with
      | some entry => ValueView.elements .posix entry.2
      | none => some [] := by
  cases env with
  | views env =>
    simp only [Entries.directories, Entries.split, findKeyView, equal_pathKey, List.find?_map, Function.comp_def]
    cases env.find? fun vp => decide ((KeyValuePairView.key vp).chars = pathKey.chars) with
    | none => exact elements_nothing
    | some itr => rfl
  | pairs env =>
    simp only [Entries.directories, Entries.split, findKeyPair, equal_pathKey, List.find?_map, Function.comp_def]
    cases env.find? fun vp => decide (vp.key.chars = pathKey.chars) with
    | none => exact (elements_copy ⟨[], List.not_mem_nil⟩).trans elements_nothing
    | some itr => exact elements_copy itr.value

theorem directories_iff (env : Entries) (dirs : List (List (BitVec 8))) :
    env.directories = some dirs ↔ PathDirectories env.split dirs := by
  rw [directories_eq]
  constructor
  · intro same
    cases result : env.split.find? fun entry => entry.1 = pathKey.chars with
    | none =>
      rw [result] at same
      cases same
      apply PathDirectories.absent
      simpa using result
    | some entry =>
      rw [result] at same
      obtain ⟨keyed, front, rest, split, before⟩ := List.find?_eq_some_iff_append.mp result
      have key : entry.1 = pathKey.chars := by simpa using keyed
      apply PathDirectories.found (split.trans (by rw [← key])) _ same
      intro other member
      simpa using before other member
  · intro iterates
    cases iterates with
    | @found front rest value _ split before elements =>
      have found : env.split.find? (fun entry => entry.1 = pathKey.chars) = some (pathKey.chars, value) := by
        rw [List.find?_eq_some_iff_append]
        exact ⟨by simp, front, rest, split, fun other member => by simpa using before other member⟩
      rw [found]
      exact elements
    | absent absent =>
      have none_found : env.split.find? (fun entry => entry.1 = pathKey.chars) = none := by
        rw [List.find?_eq_none]
        intro entry member
        simpa using absent entry member
      rw [none_found]

/-- The search for the key and the iteration of its value always end. -/
theorem directories_total (env : Entries) : ∃ dirs, env.directories = some dirs := by
  rw [directories_eq]
  cases env.split.find? fun entry => entry.1 = pathKey.chars with
  | none => exact ⟨_, rfl⟩
  | some entry => exact ⟨_, ValueView.elements_eq_shown .posix entry.2⟩

/-! ## The search -/

namespace FileSystem

variable (fs : FileSystem Path Error) (name : Path)

/-- It is executable, and there was no error about it. -/
def Executable (pth : Path) : Prop := (fs.isExecutable pth).1 = true ∧ (fs.isExecutable pth).2 = none

/-- The path in the first directory that has one; no path, if there is none. -/
inductive Chosen (dirs : List (List (BitVec 8))) : Path → Prop
  | first {front rest : List (List (BitVec 8))} {dir : List (BitVec 8)} : dirs = front ++ dir :: rest →
    fs.Executable (fs.append dir name) → (∀ other ∈ front, ¬ fs.Executable (fs.append other name)) →
    Chosen dirs (fs.append dir name)
  | nowhere : (∀ dir ∈ dirs, ¬ fs.Executable (fs.append dir name)) → Chosen dirs fs.empty

variable {fs name}

theorem search_taken {dir : List (BitVec 8)} (taken : fs.Executable (fs.append dir name)) (rest : List (List (BitVec 8))) :
    fs.search name (dir :: rest) = fs.append dir name := by
  simp [search, taken.1, taken.2]

/-- Neither a file that is not executable nor an error stops the search. -/
theorem search_passed {dir : List (BitVec 8)} (passed : ¬ fs.Executable (fs.append dir name))
    (rest : List (List (BitVec 8))) : fs.search name (dir :: rest) = fs.search name rest := by
  rw [search]
  apply if_neg
  intro taken
  rw [Bool.and_eq_true, Option.isNone_iff_eq_none] at taken
  exact passed taken.symm

theorem search_append {front rest : List (List (BitVec 8))}
    (passed : ∀ dir ∈ front, ¬ fs.Executable (fs.append dir name)) :
    fs.search name (front ++ rest) = fs.search name rest := by
  induction front with
  | nil => rfl
  | cons dir front ih =>
    obtain ⟨here, later⟩ := List.forall_mem_cons.mp passed
    rw [List.cons_append, search_passed here, ih later]

theorem chosen_search (dirs : List (List (BitVec 8))) : fs.Chosen name dirs (fs.search name dirs) := by
  induction dirs with
  | nil => exact .nowhere (by simp)
  | cons dir rest ih =>
    by_cases taken : fs.Executable (fs.append dir name)
    · rw [search_taken taken]
      exact .first (List.nil_append _).symm taken (by simp)
    · rw [search_passed taken]
      generalize fs.search name rest = path at ih ⊢
      cases ih with
      | @first front behind found split executable before =>
        have whole : dir :: rest = (dir :: front) ++ found :: behind := by rw [split]; rfl
        exact .first whole executable (List.forall_mem_cons.mpr ⟨taken, before⟩)
      | nowhere nothing => exact .nowhere (List.forall_mem_cons.mpr ⟨taken, nothing⟩)

theorem chosen_iff (dirs : List (List (BitVec 8))) (path : Path) : fs.Chosen name dirs path ↔ fs.search name dirs = path := by
  constructor
  · intro chosen
    cases chosen with
    | first split executable before => rw [split, search_append before, search_taken executable]
    | nowhere nothing =>
      have passed := @search_append Path Error fs name dirs [] nothing
      rwa [List.append_nil] at passed
  · intro same
    rw [← same]
    exact chosen_search dirs

/-- find_executable ends, and gives the path that is to be chosen from the directories of the
first entry with the key PATH. -/
theorem findExecutable_iff (fs : FileSystem Path Error) (name : Path) (env : Entries) :
    (∃ path, fs.findExecutable name env = some path) ∧
      ∀ path, fs.findExecutable name env = some path ↔ ∃ dirs, PathDirectories env.split dirs ∧ fs.Chosen name dirs path := by
  constructor
  · obtain ⟨dirs, total⟩ := directories_total env
    exact ⟨fs.search name dirs, by rw [findExecutable, total]; rfl⟩
  · intro path
    rw [findExecutable, Option.map_eq_some_iff]
    exact exists_congr fun dirs => and_congr (directories_iff env dirs) (chosen_iff dirs path).symm

end FileSystem
end BoostProcess.V2.Environment
