import Mathlib.Data.UInt

/-! executor::prepare_cmd_style: which file a command by name is.

access(2) is an oracle: which paths are executable files, where a path without a slash is in the
current directory. Paths and entries of the environment are C strings, so they have no NUL.
-/

set_option autoImplicit false

namespace BoostProcess.V1.Posix

abbrev CharString := List UInt8

def slash : UInt8 := 47
def colon : UInt8 := 58

/-- `"PATH="` -/
def pathEquals : CharString := [80, 65, 84, 72, 61]

/-- `prepare_cmd_style()` with what `environ` points to: the path that `exe` has behind it. -/
def prepareCmdStyle (executable : CharString → Bool) (environ : Option (List CharString)) (exe : CharString) : CharString :=
  if slash ∉ exe ∧ executable exe = false then
    match (environ.getD []).find? fun e => pathEquals.isPrefixOf e with
    | some e =>
      let path := (e.drop 5).splitOn colon
      ((path.map fun pp => pp ++ slash :: exe).find? executable).getD exe
    | none => exe
  else exe

/-! ## The search of execvpe -/

/-- The file of a name that an element of PATH stands for. An empty element is the current
directory. -/
def elementFile (element name : CharString) : CharString :=
  if element = [] then name else element ++ slash :: name

/-- A name with a slash is a path, any other is looked for in the elements of PATH in order. -/
def execvpeFile (executable : CharString → Bool) (elements : List CharString) (name : CharString) : Option CharString :=
  if slash ∈ name then some name else (elements.map fun element => elementFile element name).find? executable

/-- The file is the one of execvpe. Where that finds none, it is nothing that can be executed. -/
def FollowsPath (executable : CharString → Bool) (elements : List CharString) (name file : CharString) : Prop :=
  match execvpeFile executable elements name with
  | some expected => file = expected
  | none => executable file = false

/-- PATH says that the current directory comes first, if it has a file of the name. If not, no
empty element comes before the file while there is one of the name in the root directory. -/
def CurrentDirectoryAgrees (executable : CharString → Bool) (elements : List CharString) (name : CharString) : Prop :=
  if executable name = true then
    elements.find? (fun element => element.isEmpty || executable (element ++ slash :: name)) = some []
  else elements.find? (fun element => executable (element ++ slash :: name)) ≠ some []

theorem append_ne (element name : CharString) : element ++ slash :: name ≠ name := by
  intro same
  have lengths := congrArg List.length same
  rw [List.length_append, List.length_cons] at lengths
  omega

/-- With an executable file of the name in the current directory, execvpe takes that one exactly
if an empty element comes first. -/
theorem find_name_iff {executable : CharString → Bool} {name : CharString} (here : executable name = true)
    (elements : List CharString) :
    (elements.map fun element => elementFile element name).find? executable = some name ↔
      elements.find? (fun element => element.isEmpty || executable (element ++ slash :: name)) = some [] := by
  induction elements with
  | nil => simp
  | cons element rest ih =>
    cases element with
    | nil => simp [elementFile, here]
    | cons c element =>
      have other := append_ne (c :: element) name
      rw [List.map_cons, List.find?_cons, List.find?_cons, elementFile, if_neg (List.cons_ne_nil c element),
        List.isEmpty_cons, Bool.false_or]
      cases executable (c :: element ++ slash :: name) with
      | true => simpa using other
      | false => exact ih

/-- Without one, execvpe passes over the empty elements, and takes the first other that has an
executable file of the name. -/
theorem find_elementFile {executable : CharString → Bool} {name : CharString} (absent : executable name = false)
    (elements : List CharString) :
    (elements.map fun element => elementFile element name).find? executable =
      (elements.find? fun element => !element.isEmpty && executable (element ++ slash :: name)).map (· ++ slash :: name) := by
  induction elements with
  | nil => rfl
  | cons element rest ih =>
    cases element with
    | nil => simpa [elementFile, absent] using ih
    | cons c element =>
      rw [List.map_cons, List.find?_cons, List.find?_cons, elementFile, if_neg (List.cons_ne_nil c element),
        List.isEmpty_cons, Bool.not_false, Bool.true_and]
      cases executable (c :: element ++ slash :: name) with
      | true => rfl
      | false => exact ih

theorem prepareCmdStyle_eq {executable : CharString → Bool} {environ : List CharString} {value name : CharString}
    (found : environ.find? (fun e => pathEquals.isPrefixOf e) = some (pathEquals ++ value)) (plain : slash ∉ name)
    (absent : executable name = false) :
    prepareCmdStyle executable (some environ) name =
      (((value.splitOn colon).find? fun element => executable (element ++ slash :: name)).map
        (· ++ slash :: name)).getD name := by
  have behind : (pathEquals ++ value).drop 5 = value := rfl
  rw [prepareCmdStyle, if_pos ⟨plain, absent⟩, Option.getD_some, found]
  simp only [behind, List.find?_map, Function.comp_def]

/-- The first of some elements is the first of those that are not empty, unless it is empty. -/
theorem find_filled_iff (elements : List CharString) (wanted : CharString → Bool) :
    (elements.find? fun element => !element.isEmpty && wanted element) = elements.find? wanted ↔
      elements.find? wanted ≠ some [] := by
  induction elements with
  | nil => simp
  | cons element rest ih =>
    rw [List.find?_cons, List.find?_cons]
    cases element with
    | nil =>
      cases wanted [] with
      | true =>
        refine iff_of_false ?_ (not_not_intro rfl)
        intro empty
        exact absurd (List.find?_some empty) (by simp)
      | false => exact ih
    | cons c element =>
      cases wanted (c :: element) with
      | true => simp
      | false => simpa using ih

/-- With an executable file of the name in the current directory, the name is what it was. -/
theorem followsPath_here {executable : CharString → Bool} {environ : List CharString} {name : CharString}
    (elements : List CharString) (plain : slash ∉ name) (here : executable name = true) :
    FollowsPath executable elements name (prepareCmdStyle executable (some environ) name) ↔
      CurrentDirectoryAgrees executable elements name := by
  have kept : prepareCmdStyle executable (some environ) name = name := by simp [prepareCmdStyle, here]
  rw [kept, FollowsPath, execvpeFile, if_neg plain, CurrentDirectoryAgrees, if_pos here, ← find_name_iff here]
  cases (elements.map fun element => elementFile element name).find? executable with
  | none => simp [here]
  | some expected => simpa using eq_comm

/-- Without one, the code takes the root directory for an empty element. -/
theorem followsPath_absent {executable : CharString → Bool} {environ : List CharString} {value name : CharString}
    (found : environ.find? (fun e => pathEquals.isPrefixOf e) = some (pathEquals ++ value)) (plain : slash ∉ name)
    (absent : executable name = false) :
    FollowsPath executable (value.splitOn colon) name (prepareCmdStyle executable (some environ) name) ↔
      CurrentDirectoryAgrees executable (value.splitOn colon) name := by
  rw [prepareCmdStyle_eq found plain absent, FollowsPath, execvpeFile, if_neg plain, CurrentDirectoryAgrees,
    if_neg (by simp [absent]), find_elementFile absent]
  generalize value.splitOn colon = elements
  constructor
  · intro follows rooted
    have file : executable (slash :: name) = true := by simpa using List.find?_some rooted
    rw [rooted] at follows
    cases other : elements.find? fun element => !element.isEmpty && executable (element ++ slash :: name) with
    | none =>
      rw [other] at follows
      exact absurd (file.symm.trans follows) (by decide)
    | some element =>
      rw [other] at follows
      have empty : [] = element := List.append_cancel_right follows
      have filled := List.find?_some other
      simp [← empty] at filled
  · intro unrooted
    rw [(find_filled_iff elements _).mpr unrooted]
    cases elements.find? fun element => executable (element ++ slash :: name) with
    | none => exact absent
    | some element => rfl

/-- For every PATH and every oracle: the file is the one of execvpe exactly for names with a slash
and where the current directory makes no difference. -/
theorem followsPath_iff {executable : CharString → Bool} {environ : List CharString} {value name : CharString}
    (found : environ.find? (fun e => pathEquals.isPrefixOf e) = some (pathEquals ++ value)) :
    FollowsPath executable (value.splitOn colon) name (prepareCmdStyle executable (some environ) name) ↔
      slash ∈ name ∨ CurrentDirectoryAgrees executable (value.splitOn colon) name := by
  by_cases has : slash ∈ name
  · simp [FollowsPath, execvpeFile, prepareCmdStyle, has]
  · rw [or_iff_right has]
    cases here : executable name with
    | true => exact followsPath_here _ has here
    | false => exact followsPath_absent found has here

/-- A program in /bin, and PATH asks for that directory first and then for the current one. -/
theorem followsPath_iff_bin :
    let executable : CharString → Bool := fun path => path = [47, 98, 105, 110, 47, 108, 115]
    FollowsPath executable ([47, 98, 105, 110, 58].splitOn colon) [108, 115]
        (prepareCmdStyle executable (some [pathEquals ++ [47, 98, 105, 110, 58]]) [108, 115]) ↔
      slash ∈ ([108, 115] : CharString) ∨ CurrentDirectoryAgrees executable ([47, 98, 105, 110, 58].splitOn colon) [108, 115] :=
  followsPath_iff (by decide)

/-- The current directory has an executable file of the name, too, and PATH is /bin. -/
theorem not_followsPath_current :
    ¬∀ (executable : CharString → Bool) (value name : CharString),
      FollowsPath executable (value.splitOn colon) name (prepareCmdStyle executable (some [pathEquals ++ value]) name) := by
  intro holds
  let executable : CharString → Bool := fun path => path = [47, 98, 105, 110, 47, 108, 115] ∨ path = [108, 115]
  have expected : execvpeFile executable ([47, 98, 105, 110].splitOn colon) [108, 115] =
      some [47, 98, 105, 110, 47, 108, 115] := by decide
  have follows := holds executable [47, 98, 105, 110] [108, 115]
  rw [FollowsPath, expected] at follows
  revert follows
  decide

end BoostProcess.V1.Posix
