import BoostProcess.V1.Windows.Environment

/-! What the readers of basic_environment_impl see on Windows: get, and iteration over the pointers.

get has a case for the first entry and one for names that are longer than the block, both of
which return the first entry as a whole. reset loads the pointers again unless the entry was the
first one.
-/

set_option autoImplicit false

namespace BoostProcess.V1.Windows

open Blocks Transition

variable {Char : Type} [EnvironmentChar Char] [DecidableEq Char]

/-- A string is constructed from a pointer into the block; none if the block ends before it does. -/
def Environment.get (env : Environment Char) (id : List Char) : Option (List Char) :=
  if env.data.length ≤ id.length then text nullChar env.data
  else if id = env.data.take id.length ∧ env.data[id.length]? = some equalSign then text nullChar env.data
  else
    let seq := nullChar :: (id ++ [equalSign])
    match (search seq env.data).2 with
    | [] => some []
    | itr => text nullChar (itr.drop seq.length)

/-! ## What get returns -/

/-- What get should return: the value, and nothing for a name that is not set. -/
def valueText (value : Option (Text Char)) : List Char := value.elim [] Text.text

omit [DecidableEq Char] in
theorem length_lt_rendered (entry : Name Char × Text Char) : entry.2.text.length < (rendered entry).length := by
  unfold rendered render
  simp only [List.length_append, List.length_cons]
  omega

theorem text_block (entry : Name Char × Text Char) (rest : List (Name Char × Text Char)) :
    text nullChar (block (entry :: rest)) = some (rendered entry) := by
  rw [block_cons]
  exact text_append (rendered_free entry)

section
variable {env : Environment Char} {id : Name Char} {live : List (Name Char × Text Char)}

/-- Without an entry there is only the NUL, which is no longer than any name. -/
theorem get_empty (data : env.data = block []) : env.get id.text = some [] := by
  have short : env.data.length ≤ id.text.length := by
    rw [data]
    exact List.length_pos_of_ne_nil id.filled
  unfold Environment.get
  rw [if_pos short, data]
  simp [block, text]

/-- The first two cases: the whole first entry. -/
theorem get_whole {first : Name Char × Text Char} {rest : List (Name Char × Text Char)}
    (data : env.data = block (first :: rest)) (whole : env.data.length ≤ id.text.length ∨ first.1 = id) :
    env.get id.text = some (rendered first) := by
  unfold Environment.get
  split
  · rw [data, text_block]
  · rename_i long
    have begins := (first_iff id env.data).mpr ((data ▸ word_prefix_iff id (first :: rest)).mpr
      (congrArg some (whole.resolve_left long)))
    rw [if_pos begins, data, text_block]

/-- The third case: what the search finds. -/
theorem get_searched (data : env.data = block live) (long : ¬ env.data.length ≤ id.text.length)
    (other : live.head?.map Prod.fst ≠ some id) :
    env.get id.text = match (search (nullChar :: word id) (block live)).2 with
      | [] => some []
      | itr => text nullChar (itr.drop (nullChar :: word id).length) := by
  have missed : ¬ (id.text = env.data.take id.text.length ∧ env.data[id.text.length]? = some equalSign) :=
    fun test => other ((data ▸ word_prefix_iff id live).mp ((first_iff id env.data).mp test))
  unfold Environment.get
  rw [if_neg long, if_neg missed, data]
  rfl

theorem get_later {first : Name Char × Text Char} {rest : List (Name Char × Text Char)} (data : env.data = block (first :: rest))
    (long : ¬ env.data.length ≤ id.text.length) (other : first.1 ≠ id) :
    env.get id.text = some (valueText (Entries.map rest id)) := by
  have head : (first :: rest).head?.map Prod.fst ≠ some id := by simpa using other
  rw [get_searched data long head]
  by_cases present : id ∈ Entries.keys rest
  · obtain ⟨front, value, behind, rfl, before⟩ := Entries.exists_first present
    obtain ⟨passed, found, -⟩ := search_found first value behind before
    have here : (nullChar :: block ((id, value) :: behind)).drop (nullChar :: word id).length =
        value.text ++ nullChar :: block behind := by
      rw [block_cons, rendered, render]
      simp [word, ← List.drop_drop]
    rw [Entries.map_first before, ← List.cons_append, found]
    dsimp only
    rw [here, text_append value.free]
    rfl
  · have nothing := @search_absent _ _ _ id (first :: rest) fun entry member same =>
      present (List.mem_map.mpr ⟨entry, member, same⟩)
    rw [nothing, Entries.map_eq_none.mpr present]
    rfl

/-- get returns what it should if there is nothing, or if the id is neither the first one nor
longer than the block. -/
theorem get_iff (holds : Holds env live) (id : Name Char) :
    env.get id.text = some (valueText (Entries.map live id)) ↔
      live = [] ∨ live.head?.map Prod.fst ≠ some id ∧ id.text.length < env.data.length := by
  have data := holds.1
  cases live with
  | nil => exact iff_of_true (get_empty data) (.inl rfl)
  | cons first rest =>
    by_cases long : env.data.length ≤ id.text.length
    · -- a name that is as long as the block has no entry in it
      have absent : id ∉ Entries.keys (first :: rest) := by
        intro present
        obtain ⟨entry, member, same⟩ := List.mem_map.mp present
        have short := mem_lt_block member
        rw [same, ← data] at short
        omega
      apply iff_of_false
      · rw [get_whole data (.inl long), Entries.map_eq_none.mpr absent]
        intro same
        have longer := length_lt_rendered first
        rw [Option.some.inj same] at longer
        exact Nat.not_lt_zero _ longer
      · rintro (none | ⟨-, short⟩)
        · cases none
        · omega
    · by_cases here : first.1 = id
      · apply iff_of_false
        · rw [get_whole data (.inr here), Entries.map_cons, here, Function.update_self]
          intro same
          have longer := length_lt_rendered first
          rw [Option.some.inj same] at longer
          exact Nat.lt_irrefl _ longer
        · rintro (none | ⟨other, -⟩)
          · cases none
          · exact other (congrArg some here)
      · apply iff_of_true
        · rw [get_later data long here, Entries.map_cons, Function.update_of_ne (Ne.symm here)]
        · refine .inr ⟨fun same => here (Option.some.inj same), ?_⟩
          omega

end

/-! ## The pointers along a run -/

/-- An environment and the entries that its history leaves. -/
def step (state : Environment Char × List (Name Char × Text Char)) (change : Change Char) :
    Option (Environment Char × List (Name Char × Text Char)) :=
  (apply state.1 change).map fun env => (env, change.entries state.2)

/-- The pointers are to the live entries. -/
def Lists (state : Environment Char × List (Name Char × Text Char)) : Prop :=
  state.1.envArr = (starts state.2).map some ++ [none]

/-- The change does not only take the first entry out of the block. -/
def SparesFirst (state : Environment Char × List (Name Char × Text Char)) : Change Char → Prop
  | .set _ _ => True
  | .reset id => ¬ word id <+: state.1.data

theorem step_holds {state next : Environment Char × List (Name Char × Text Char)} {change : Change Char}
    (holds : Holds state.1 state.2) (taken : step state change = some next) : Holds next.1 next.2 := by
  obtain ⟨env, reached, kept⟩ := apply_holds holds change
  unfold step at taken
  rw [reached] at taken
  cases taken
  exact kept

/-- The entries go along with every run of the environment. -/
theorem run_step {env final : Environment Char} {changes : List (Change Char)} (live : List (Name Char × Text Char))
    (reached : run apply env changes = some final) :
    run step (env, live) changes = some (final, changes.foldl Change.entries live) := by
  induction changes generalizing env live with
  | nil =>
    cases reached
    rfl
  | cons change rest ih =>
    obtain ⟨next, taken, later⟩ := run_cons.mp reached
    exact run_cons.mpr ⟨_, congrArg (Option.map _) taken, ih (change.entries live) later⟩

omit [DecidableEq Char] in
theorem length_starts (live : List (Name Char × Text Char)) : (starts live).length = live.length := by
  induction live with
  | nil => rfl
  | cons entry rest ih => exact congrArg (· + 1) ih

/-- What reloading leaves is listed. -/
theorem reload_lists {env next : Environment Char} {live : List (Name Char × Text Char)} (data : env.data = block live)
    (loaded : env.reload = some next) : Lists (next, live) := by
  rw [Environment.reload, data, loadVar_block] at loaded
  cases loaded
  rfl

/-- One change: the pointers stay those to the live entries, unless one entry too many is left. -/
theorem lists_step {state next : Environment Char × List (Name Char × Text Char)} {change : Change Char}
    (holds : Holds state.1 state.2) (lists : Lists state) (taken : step state change = some next) :
    Lists next ↔ SparesFirst state change := by
  obtain ⟨env, reached, rfl⟩ := Option.map_eq_some_iff.mp taken
  cases change with
  | set id value =>
    obtain ⟨middle, loads⟩ := set_eq holds id value
    exact iff_of_true (reload_lists rfl (loads.symm.trans reached)) trivial
  | reset id =>
    change _ ↔ ¬ word id <+: state.1.data
    rw [holds.1, word_prefix_iff]
    rcases reset_cases holds id with ⟨absent, kept⟩ | ⟨first, erased⟩ | ⟨other, loads⟩
    · obtain rfl : state.1 = env := Option.some.inj (kept.symm.trans reached)
      apply iff_of_true
      · change Lists (state.1, Entries.remove id state.2)
        rw [Entries.remove_eq_self absent]
        exact lists
      · intro first
        obtain ⟨entry, head, same⟩ := Option.map_eq_some_iff.mp first
        exact absent (List.mem_map.mpr ⟨entry, List.mem_of_mem_head? head, same⟩)
    · obtain rfl := Option.some.inj (erased.symm.trans reached)
      apply iff_of_false
      · intro still
        unfold Lists at lists still
        have counts := congrArg List.length (still.symm.trans lists)
        obtain ⟨entry, head, same⟩ := Option.map_eq_some_iff.mp first
        have member := List.mem_of_mem_head? head
        simp only [List.length_append, List.length_map, length_starts, Change.entries, Entries.remove] at counts
        rw [List.length_eraseP_of_mem member (decide_eq_true same)] at counts
        have := List.length_pos_of_mem member
        omega
      · exact not_not_intro first
    · exact iff_of_true (reload_lists rfl (loads.symm.trans reached)) other

/-- After a history get returns the value of a name, and all along the pointers are those to the
live entries, if and only if the name is neither the first one nor as long as the block, or there
is no entry, and no call has reset the first entry. -/
theorem readers_iff (changes : List (Change Char)) (id : Name Char) :
    ∃ env live, run step (Environment.empty, []) changes = some (env, live) ∧ env.data = block live ∧
      (Entries.keys live).Nodup ∧ Entries.map live = lastValues changes ∧
      ((env.get id.text = some (valueText (lastValues changes id)) ∧ Always step Lists (Environment.empty, []) changes) ↔
        (live = [] ∨ live.head?.map Prod.fst ≠ some id ∧ id.text.length < env.data.length) ∧
          Admits step SparesFirst (Environment.empty, []) changes) := by
  have initial : Holds (Environment.empty : Environment Char) [] := ⟨rfl, List.nodup_nil⟩
  have listed : Lists ((Environment.empty : Environment Char), []) := rfl
  obtain ⟨env, reached, result, last⟩ := run_holds initial changes
  have tracked := run_step [] reached
  have pointers := always_iff_admits (fun _ _ _ holds _ => step_holds holds) (fun _ _ _ => lists_step) initial listed tracked
  refine ⟨env, _, tracked, result.1, result.2, last, ?_⟩
  have value : lastValues changes = Entries.map (changes.foldl Change.entries []) := last.symm
  rw [value, get_iff result id, pointers]

/-- A is the first entry and get returns `A=x`; once A is reset there is one entry and there are
two pointers. -/
theorem readers_wrong_first :
    let A : Name UInt8 := ⟨[0x41], by decide, by decide, by decide⟩
    let B : Name UInt8 := ⟨[0x42], by decide, by decide, by decide⟩
    let x : Text UInt8 := ⟨[0x78], by decide⟩
    ((run apply Environment.empty [.set A x]).bind fun env => env.get A.text) = some [0x41, 0x3d, 0x78] ∧
      valueText (lastValues [.set A x] A) = [0x78] ∧
      (run apply Environment.empty [.set A x, .set B x, .reset A]).map (fun env => (env.data, env.envArr.length)) =
        some ([0x42, 0x3d, 0x78, 0, 0], 3) ∧
      loadVar ([0x42, 0x3d, 0x78, 0, 0] : List UInt8) = some [some [0x42, 0x3d, 0x78, 0, 0], none] := by
  decide

end BoostProcess.V1.Windows
