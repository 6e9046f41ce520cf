import BoostProcess.Library.Delimited
import BoostProcess.V1.Environment

/-! basic_environment_impl on Windows: all entries in one block.

Each entry ends with a NUL, and one more NUL ends the block. Entries are found by a search for
the NUL in front of them and their name, so the first one is a case of its own. A pointer into
the block is what the block holds from there on, as is an iterator.
-/

set_option autoImplicit false

namespace BoostProcess.V1.Windows

open Blocks Delimited Transition

variable {Char : Type} [EnvironmentChar Char]

structure Environment (Char : Type) where
  /-- `_data` -/
  data : List Char
  /-- `_env_arr` with its null pointer. -/
  envArr : List (Option (List Char))

section
variable [DecidableEq Char]

/-- `std::search`: what is in front of the first occurrence, and the iterator to it. -/
def search (seq : List Char) : List Char → List Char × List Char
  | [] => ([], [])
  | c :: rest =>
    if seq.isPrefixOf (c :: rest) then ([], c :: rest)
    else (c :: (search seq rest).1, (search seq rest).2)

/-- The loop of `_load_var`: the pointers that it puts behind the first one. Nothing is read
behind the block. -/
def loadLoop : List Char → Option (List (List Char))
  | [] => none
  | c :: rest =>
    if c ≠ nullChar then loadLoop rest
    else match rest with
      | [] => none
      | next :: behind => if next ≠ nullChar then (loadLoop (next :: behind)).map ((next :: behind) :: ·) else some []

def loadVar (p : List Char) : Option (List (Option (List Char))) :=
  match p with
  | [] => none
  | c :: rest =>
    if c ≠ nullChar then (loadLoop (c :: rest)).map fun pointers => some (c :: rest) :: pointers.map some ++ [none]
    else some [none]

namespace Environment

/-- The environment that starts empty. -/
def empty : Environment Char := ⟨[nullChar], [none]⟩

def reload (env : Environment Char) : Option (Environment Char) :=
  (loadVar env.data).map fun envArr => { env with envArr }

/-- The first part of `reset`: the first entry is erased with its NUL. -/
def eraseFirst (id data : List Char) : Option (List Char) :=
  if id = data.take id.length ∧ data[id.length]? = some equalSign then after nullChar data else some data

/-- The second part: any other entry is erased with the NUL in front of it. -/
def eraseFound (env : Environment Char) (id : List Char) : Option (Environment Char) :=
  match search (nullChar :: (id ++ [equalSign])) env.data with
  | (_, []) => some env
  | (passed, _ :: entry) => (seek (fun c => c = nullChar) entry).bind fun rest => reload { env with data := passed ++ rest }

def reset (env : Environment Char) (id : List Char) : Option (Environment Char) :=
  if env.data.length ≤ id.length then some env
  else (eraseFirst id env.data).bind fun data => eraseFound { env with data } id

/-- The insertion is put in front of the last NUL. -/
def set (env : Environment Char) (id value : List Char) : Option (Environment Char) :=
  (env.reset id).bind fun env =>
    let insertion := id ++ equalSign :: value ++ [nullChar]
    reload { env with data := env.data.dropLast ++ insertion ++ env.data.drop (env.data.length - 1) }

end Environment
end

/-! ## Runs -/

/-- A name that an entry can have. -/
@[ext] structure Name (Char : Type) [EnvironmentChar Char] where
  text : List Char
  filled : text ≠ []
  unsigned : equalSign ∉ text
  free : nullChar ∉ text
  deriving DecidableEq

structure Text (Char : Type) [EnvironmentChar Char] where
  text : List Char
  free : nullChar ∉ text

inductive Change (Char : Type) [EnvironmentChar Char] where
  | set (id : Name Char) (value : Text Char)
  | reset (id : Name Char)

/-- None is a read outside of the block. -/
def apply [DecidableEq Char] (env : Environment Char) : Change Char → Option (Environment Char)
  | .set id value => env.set id.text value.text
  | .reset id => env.reset id.text

/-- What a change does to the values of the names. -/
def Change.update [DecidableEq Char] (values : Name Char → Option (Text Char)) : Change Char → Name Char → Option (Text Char)
  | .set id value => Function.update values id (some value)
  | .reset id => Function.update values id none

/-- The entries in the order in which they have been set last. -/
def Change.entries [DecidableEq Char] (live : List (Name Char × Text Char)) : Change Char → List (Name Char × Text Char)
  | .set id value => Entries.remove id live ++ [(id, value)]
  | .reset id => Entries.remove id live

/-- The last value of each name that is set. -/
def lastValues [DecidableEq Char] (changes : List (Change Char)) : Name Char → Option (Text Char) :=
  changes.foldl Change.update fun _ => none

/-! ## Blocks of entries -/

def rendered (entry : Name Char × Text Char) : List Char := render entry.1.text entry.2.text

/-- Each entry and one NUL, and the last NUL. -/
def block (live : List (Name Char × Text Char)) : List Char := terminated nullChar (live.map rendered) ++ [nullChar]

/-- Where the entries start. -/
def starts : List (Name Char × Text Char) → List (List Char)
  | [] => []
  | entry :: rest => block (entry :: rest) :: starts rest

theorem block_cons (entry : Name Char × Text Char) (rest : List (Name Char × Text Char)) :
    block (entry :: rest) = rendered entry ++ nullChar :: block rest := by
  simp [block]

theorem block_append (front rest : List (Name Char × Text Char)) :
    block (front ++ rest) = terminated nullChar (front.map rendered) ++ block rest := by
  rw [block, List.map_append, terminated_append, List.append_assoc]
  rfl

theorem rendered_free (entry : Name Char × Text Char) : nullChar ∉ rendered entry := by
  simp only [rendered, render, List.mem_append, List.mem_cons, not_or]
  exact ⟨entry.1.free, EnvironmentChar.equalSign_ne_nullChar.symm, entry.2.free⟩

theorem Name.head (id : Name Char) : ∃ c name, id.text = c :: name ∧ c ≠ nullChar := by
  obtain ⟨c, name, split⟩ := List.exists_cons_of_ne_nil id.filled
  exact ⟨c, name, split, fun same => id.free (by simp [split, same])⟩

/-- An entry begins with a character that is no NUL. -/
theorem block_head (entry : Name Char × Text Char) (rest : List (Name Char × Text Char)) :
    ∃ c behind, block (entry :: rest) = c :: behind ∧ c ≠ nullChar := by
  obtain ⟨c, name, split, char⟩ := entry.1.head
  have whole : block (entry :: rest) = c :: (name ++ equalSign :: entry.2.text ++ nullChar :: block rest) := by
    rw [block_cons, rendered, render, split]
    rfl
  exact ⟨c, _, whole, char⟩

/-- What is searched for behind a NUL. -/
def word (id : Name Char) : List Char := id.text ++ [equalSign]

/-- A block begins with the name of its first entry and the sign, and with no other name and sign. -/
theorem word_prefix_iff (id : Name Char) (live : List (Name Char × Text Char)) :
    word id <+: block live ↔ live.head?.map Prod.fst = some id := by
  cases live with
  | nil =>
    obtain ⟨c, name, split, char⟩ := id.head
    simp [word, block, split, char]
  | cons entry rest =>
    rw [List.head?_cons, Option.map_some, Option.some.injEq, block_cons, rendered, render]
    constructor
    · intro begins
      obtain ⟨behind, whole⟩ := begins
      rw [word, List.append_assoc, List.append_assoc] at whole
      have names := (front_unique id.unsigned entry.1.unsigned whole).1
      exact Name.ext names.symm
    · intro same
      subst same
      exact ⟨entry.2.text ++ nullChar :: block rest, by simp [word]⟩

/-! ## What is found in a block -/

theorem first_iff (id : Name Char) (data : List Char) :
    (id.text = data.take id.text.length ∧ data[id.text.length]? = some equalSign) ↔ word id <+: data := by
  constructor
  · intro test
    obtain ⟨inside, sign⟩ := List.getElem?_eq_some_iff.mp test.2
    refine ⟨data.drop (id.text.length + 1), ?_⟩
    calc word id ++ data.drop (id.text.length + 1)
      _ = data.take id.text.length ++ (data[id.text.length] :: data.drop (id.text.length + 1)) := by
        rw [sign, ← test.1, word, List.append_assoc]
        rfl
      _ = data := by rw [← List.drop_eq_getElem_cons inside, List.take_append_drop]
  · intro begins
    obtain ⟨behind, rfl⟩ := begins
    simp [word]

section
variable [DecidableEq Char]

/-- In front of the next NUL there is nothing to find. -/
theorem search_entry (id : Name Char) {entry : List Char} (free : nullChar ∉ entry) (behind : List Char) :
    search (nullChar :: word id) (entry ++ nullChar :: behind) =
      if word id <+: behind then (entry, nullChar :: behind)
      else (entry ++ nullChar :: (search (nullChar :: word id) behind).1, (search (nullChar :: word id) behind).2) := by
  induction entry with
  | nil => by_cases begins : word id <+: behind <;> simp [search, begins]
  | cons c entry ih =>
    have passed : ¬ (nullChar = c) := List.ne_of_not_mem_cons free
    rw [List.cons_append, search, if_neg (by simp [passed]), ih (List.not_mem_of_not_mem_cons free)]
    by_cases begins : word id <+: behind <;> simp [begins]

theorem search_nil (id : Name Char) : search (nullChar :: word id) (block []) = ([nullChar], []) := by
  simp [block, search, word]

/-- The first entry is not found, since there is no NUL in front of it. -/
theorem search_absent {id : Name Char} {live : List (Name Char × Text Char)} (absent : ∀ entry ∈ live.tail, entry.1 ≠ id) :
    (search (nullChar :: word id) (block live)).2 = [] := by
  induction live with
  | nil => rw [search_nil]
  | cons entry rest ih =>
    have other : ¬ word id <+: block rest := by
      rw [word_prefix_iff]
      cases rest with
      | nil => simp
      | cons next rest =>
        have different := absent next List.mem_cons_self
        simpa using different
    rw [block_cons, search_entry id (rendered_free entry), if_neg other]
    exact ih fun later member => absent later (List.mem_of_mem_tail member)

/-- Any other entry is found at the NUL in front of it. -/
theorem search_found {id : Name Char} (first : Name Char × Text Char) {front : List (Name Char × Text Char)}
    (value : Text Char) (rest : List (Name Char × Text Char)) (before : ∀ entry ∈ front, entry.1 ≠ id) :
    ∃ passed, search (nullChar :: word id) (block (first :: front ++ (id, value) :: rest)) =
        (passed, nullChar :: block ((id, value) :: rest)) ∧
      ∀ others, passed ++ nullChar :: block others = block (first :: front ++ others) := by
  induction front generalizing first with
  | nil =>
    have here : word id <+: block ((id, value) :: rest) := (word_prefix_iff id _).mpr rfl
    refine ⟨rendered first, ?_, fun others => (block_cons first others).symm⟩
    rw [List.cons_append, List.nil_append, block_cons, search_entry id (rendered_free first), if_pos here]
  | cons next front ih =>
    obtain ⟨different, later⟩ := List.forall_mem_cons.mp before
    have other : ¬ word id <+: block (next :: front ++ (id, value) :: rest) := by
      rw [word_prefix_iff]
      simpa using different
    obtain ⟨passed, found, around⟩ := ih next later
    refine ⟨rendered first ++ nullChar :: passed, ?_, fun others => ?_⟩
    · rw [List.cons_append, block_cons, search_entry id (rendered_free first), if_neg other, found]
    · have whole : first :: next :: front ++ others = first :: (next :: front ++ others) := rfl
      rw [List.append_assoc, List.cons_append, around others, whole, block_cons first]

theorem after_block (entry : Name Char × Text Char) (rest : List (Name Char × Text Char)) :
    after nullChar (block (entry :: rest)) = some (block rest) := by
  rw [block_cons]
  exact after_append (rendered_free entry)

theorem seek_block (entry : Name Char × Text Char) (rest : List (Name Char × Text Char)) :
    seek (fun c => c = nullChar) (block (entry :: rest)) = some (nullChar :: block rest) := by
  rw [block_cons]
  apply seek_append
  · intro c member
    exact decide_eq_false fun same => rendered_free entry (same ▸ member)
  · exact decide_eq_true rfl

/-! ## Loading -/

theorem loadLoop_skip {text : List Char} (free : nullChar ∉ text) (behind : List Char) :
    loadLoop (text ++ behind) = loadLoop behind := by
  induction text with
  | nil => rfl
  | cons c text ih =>
    have char : c ≠ nullChar := (List.ne_of_not_mem_cons free).symm
    rw [List.cons_append, loadLoop.eq_def]
    simp only [char, ne_eq, not_false_eq_true, if_true]
    exact ih (List.not_mem_of_not_mem_cons free)

theorem loadLoop_block (entry : Name Char × Text Char) (rest : List (Name Char × Text Char)) :
    loadLoop (block (entry :: rest)) = some (starts rest) := by
  induction rest generalizing entry with
  | nil =>
    rw [block_cons, loadLoop_skip (rendered_free entry)]
    simp [loadLoop, block, starts]
  | cons next rest ih =>
    obtain ⟨c, behind, head, char⟩ := block_head next rest
    have later := ih next
    rw [block_cons, loadLoop_skip (rendered_free entry), starts]
    rw [head] at later ⊢
    simp [loadLoop, char, later]

theorem loadVar_block (live : List (Name Char × Text Char)) : loadVar (block live) = some ((starts live).map some ++ [none]) := by
  cases live with
  | nil => simp [loadVar, block, starts]
  | cons entry rest =>
    obtain ⟨c, behind, head, char⟩ := block_head entry rest
    have later := loadLoop_block entry rest
    rw [starts]
    rw [head] at later ⊢
    simp [loadVar, char, later]

/-! ## Changes -/

/-- The block of the entries, with whatever has been loaded last. -/
def Holds (env : Environment Char) (live : List (Name Char × Text Char)) : Prop :=
  env.data = block live ∧ (Entries.keys live).Nodup

theorem reload_holds {env : Environment Char} {live : List (Name Char × Text Char)} (holds : Holds env live) :
    ∃ next, env.reload = some next ∧ Holds next live := by
  refine ⟨{ env with envArr := (starts live).map some ++ [none] }, ?_, holds⟩
  rw [Environment.reload, holds.1, loadVar_block]
  rfl

omit [DecidableEq Char] in
theorem mem_lt_block {entry : Name Char × Text Char} {live : List (Name Char × Text Char)} (member : entry ∈ live) :
    entry.1.text.length < (block live).length := by
  obtain ⟨front, rest, rfl⟩ := List.mem_iff_append.mp member
  rw [block_append, block_cons, rendered, render]
  simp only [List.length_append, List.length_cons]
  omega

theorem eraseFirst_hit (id : Name Char) (value : Text Char) (rest : List (Name Char × Text Char)) :
    Environment.eraseFirst id.text (block ((id, value) :: rest)) = some (block rest) := by
  have begins := (first_iff id (block ((id, value) :: rest))).mpr ((word_prefix_iff _ _).mpr rfl)
  rw [Environment.eraseFirst, if_pos begins, after_block]

theorem eraseFirst_miss {id : Name Char} {live : List (Name Char × Text Char)} (other : live.head?.map Prod.fst ≠ some id) :
    Environment.eraseFirst id.text (block live) = some (block live) :=
  if_neg fun test => other ((word_prefix_iff id live).mp ((first_iff id (block live)).mp test))

theorem eraseFound_absent {env : Environment Char} {id : Name Char} {live : List (Name Char × Text Char)}
    (data : env.data = block live) (absent : ∀ entry ∈ live.tail, entry.1 ≠ id) : env.eraseFound id.text = some env := by
  have nothing := search_absent absent
  rw [word, ← data] at nothing
  unfold Environment.eraseFound
  generalize search _ env.data = found at nothing
  obtain ⟨passed, ahead⟩ := found
  subst nothing
  rfl

theorem eraseFound_found {env : Environment Char} {id : Name Char} {first : Name Char × Text Char}
    {front rest : List (Name Char × Text Char)} {value : Text Char}
    (data : env.data = block (first :: front ++ (id, value) :: rest)) (before : ∀ entry ∈ front, entry.1 ≠ id) :
    env.eraseFound id.text = Environment.reload { env with data := block (first :: front ++ rest) } := by
  obtain ⟨passed, found, around⟩ := search_found first value rest before
  rw [word, ← data] at found
  rw [Environment.eraseFound, found]
  simp only [seek_block, Option.bind_some, around]

theorem reset_eq {env : Environment Char} {id : Name Char} {entry : Name Char × Text Char}
    {live : List (Name Char × Text Char)} (data : env.data = block live) (member : entry ∈ live) (same : entry.1 = id) :
    env.reset id.text =
      (Environment.eraseFirst id.text (block live)).bind fun data => Environment.eraseFound { env with data } id.text := by
  have long : ¬ env.data.length ≤ id.text.length := by
    rw [data, ← same]
    exact Nat.not_le.mpr (mem_lt_block member)
  rw [Environment.reset, if_neg long, data]

theorem reset_absent {env : Environment Char} {id : Name Char} {live : List (Name Char × Text Char)}
    (data : env.data = block live) (absent : id ∉ Entries.keys live) : env.reset id.text = some env := by
  have different : ∀ entry ∈ live, entry.1 ≠ id := fun entry member same => absent (List.mem_map.mpr ⟨entry, member, same⟩)
  have first : live.head?.map Prod.fst ≠ some id := by
    cases live with
    | nil => simp
    | cons entry rest =>
      have other := different entry List.mem_cons_self
      simpa using other
  have kept : ({ env with data := block live } : Environment Char) = env := by rw [← data]
  rw [Environment.reset]
  split
  · rfl
  · rw [data, eraseFirst_miss first, Option.bind_some, kept]
    exact eraseFound_absent data fun entry member => different entry (List.mem_of_mem_tail member)

theorem reset_first {env : Environment Char} {id : Name Char} {value : Text Char} {rest : List (Name Char × Text Char)}
    (data : env.data = block ((id, value) :: rest)) (absent : id ∉ Entries.keys rest) :
    env.reset id.text = some { env with data := block rest } := by
  have different : ∀ other ∈ rest.tail, other.1 ≠ id :=
    fun other found same => absent (List.mem_map.mpr ⟨other, List.mem_of_mem_tail found, same⟩)
  rw [reset_eq data List.mem_cons_self rfl, eraseFirst_hit, Option.bind_some]
  exact eraseFound_absent rfl different

theorem reset_later {env : Environment Char} {id : Name Char} {first : Name Char × Text Char}
    {front rest : List (Name Char × Text Char)} {value : Text Char}
    (data : env.data = block (first :: front ++ (id, value) :: rest)) (before : ∀ entry ∈ first :: front, entry.1 ≠ id) :
    env.reset id.text = Environment.reload { env with data := block (first :: front ++ rest) } := by
  obtain ⟨other, others⟩ := List.forall_mem_cons.mp before
  have missed : (first :: front ++ (id, value) :: rest).head?.map Prod.fst ≠ some id := by simpa using other
  have member : (id, value) ∈ first :: front ++ (id, value) :: rest := by simp
  rw [reset_eq data member rfl, eraseFirst_miss missed, Option.bind_some]
  exact eraseFound_found rfl others

/-- What reset does: nothing, if there is no entry of the name; the first entry is taken out of
the block as it is, and any other one with the pointers loaded again. -/
theorem reset_cases {env : Environment Char} {live : List (Name Char × Text Char)} (holds : Holds env live) (id : Name Char) :
    id ∉ Entries.keys live ∧ env.reset id.text = some env ∨
      live.head?.map Prod.fst = some id ∧ env.reset id.text = some { env with data := block (Entries.remove id live) } ∨
      live.head?.map Prod.fst ≠ some id ∧
        env.reset id.text = Environment.reload { env with data := block (Entries.remove id live) } := by
  obtain ⟨data, distinct⟩ := holds
  by_cases present : id ∈ Entries.keys live
  · obtain ⟨front, value, rest, rfl, before⟩ := Entries.exists_first present
    rw [Entries.remove_first before]
    cases front with
    | nil =>
      -- behind the first entry there is no other one of the name
      have absent := (List.nodup_cons.mp distinct).1
      exact .inr (.inl ⟨rfl, reset_first data absent⟩)
    | cons first front =>
      refine .inr (.inr ⟨?_, reset_later data before⟩)
      simpa using before first List.mem_cons_self
  · exact .inl ⟨present, reset_absent data present⟩

/-- reset takes the entry of the name out of the block, wherever it is. -/
theorem reset_holds {env : Environment Char} {live : List (Name Char × Text Char)} (holds : Holds env live) (id : Name Char) :
    ∃ next, env.reset id.text = some next ∧ Holds next (Entries.remove id live) := by
  have removed := @Entries.nodup_remove _ _ _ live id holds.2
  rcases reset_cases holds id with ⟨absent, reached⟩ | ⟨-, reached⟩ | ⟨-, reached⟩
  · rw [Entries.remove_eq_self absent]
    exact ⟨env, reached, holds⟩
  · exact ⟨_, reached, rfl, removed⟩
  · rw [reached]
    exact reload_holds ⟨rfl, removed⟩

/-- set loads the pointers into a block that has the entry as its last one. -/
theorem set_eq {env : Environment Char} {live : List (Name Char × Text Char)} (holds : Holds env live) (id : Name Char)
    (value : Text Char) :
    ∃ middle : Environment Char, env.set id.text value.text =
      Environment.reload { middle with data := block (Entries.remove id live ++ [(id, value)]) } := by
  obtain ⟨middle, reached, data, -⟩ := reset_holds holds id
  have inserted : middle.data.dropLast ++ (id.text ++ equalSign :: value.text ++ [nullChar]) ++
      middle.data.drop (middle.data.length - 1) = block (Entries.remove id live ++ [(id, value)]) := by
    rw [data, block_append, block_cons]
    simp [block, rendered, render]
  refine ⟨middle, ?_⟩
  rw [Environment.set, reached, Option.bind_some, ← inserted]

theorem set_holds {env : Environment Char} {live : List (Name Char × Text Char)} (holds : Holds env live) (id : Name Char)
    (value : Text Char) :
    ∃ next, env.set id.text value.text = some next ∧ Holds next (Entries.remove id live ++ [(id, value)]) := by
  obtain ⟨middle, reached⟩ := set_eq holds id value
  rw [reached]
  exact reload_holds ⟨rfl, Entries.nodup_concat (Entries.nodup_remove holds.2) (Entries.not_mem_keys_remove holds.2)⟩

/-- One change: nothing is read outside of the block, and the block has the entries that are left. -/
theorem apply_holds {env : Environment Char} {live : List (Name Char × Text Char)} (holds : Holds env live)
    (change : Change Char) : ∃ next, apply env change = some next ∧ Holds next (change.entries live) := by
  cases change with
  | set id value => exact set_holds holds id value
  | reset id => exact reset_holds holds id

/-- These are the entries of the map that the change makes. -/
theorem Change.map_entries {live : List (Name Char × Text Char)} (distinct : (Entries.keys live).Nodup) (change : Change Char) :
    Entries.map (change.entries live) = update (Entries.map live) change := by
  cases change with
  | set id value =>
    unfold entries
    rw [Entries.map_concat (Entries.not_mem_keys_remove distinct), Entries.map_remove distinct, Function.update_idem]
    rfl
  | reset id => exact Entries.map_remove distinct

theorem run_holds {env : Environment Char} {live : List (Name Char × Text Char)} (holds : Holds env live)
    (changes : List (Change Char)) :
    ∃ final, run apply env changes = some final ∧ Holds final (changes.foldl Change.entries live) ∧
      Entries.map (changes.foldl Change.entries live) = changes.foldl Change.update (Entries.map live) := by
  induction changes generalizing env live with
  | nil => exact ⟨env, rfl, holds, rfl⟩
  | cons change rest ih =>
    obtain ⟨next, taken, kept⟩ := apply_holds holds change
    obtain ⟨final, reached, result, last⟩ := ih kept
    refine ⟨final, run_cons.mpr ⟨next, taken, reached⟩, result, ?_⟩
    rw [List.foldl_cons, last, change.map_entries holds.2]
    rfl

/-- After every run of changes the block has one entry for each name that is set, with its last
value, and no other; and the pointers into it are the starts of these entries. -/
theorem run_block (changes : List (Change Char)) :
    ∃ env live, run apply Environment.empty changes = some env ∧
      env.data = terminated nullChar (live.map rendered) ++ [nullChar] ∧ (Entries.keys live).Nodup ∧
      Entries.map live = lastValues changes ∧ loadVar env.data = some ((starts live).map some ++ [none]) := by
  have initial : Holds (Environment.empty : Environment Char) [] := ⟨rfl, List.nodup_nil⟩
  obtain ⟨final, reached, result, last⟩ := run_holds initial changes
  refine ⟨final, _, reached, result.1, result.2, last, ?_⟩
  rw [result.1, loadVar_block]

end

end BoostProcess.V1.Windows
