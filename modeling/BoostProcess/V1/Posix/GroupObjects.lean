import BoostProcess.Library.Ledger
import BoostProcess.Library.Transition

/-! group objects on POSIX and the process groups behind them.

A process group lasts until the last of its processes is reaped; its number can then be that of
another group. A group object has only the number.
-/

set_option autoImplicit false

namespace BoostProcess.V1.Posix.GroupObjects

open Transition

/-- Numbers are reused, so a process group also has its place in the order in which groups were formed. -/
structure ProcessGroup where
  number : Nat
  serial : Nat
  deriving DecidableEq, Repr

structure Process where
  pid : Nat
  group : ProcessGroup
  exited : Bool
  deriving DecidableEq, Repr

inductive Way where
  | killed
  | abandoned
  deriving DecidableEq, Repr

structure World where
  /-- The processes that have not been reaped, without this one. -/
  procs : List Process
  /-- The group of this process. -/
  home : ProcessGroup
  formed : Nat
  /-- `_attached` of the objects that there are. -/
  attached : Nat → Option Bool := fun _ => none
  /-- The groups that launches gave to objects. -/
  handles : Ledger Nat ProcessGroup Way := Ledger.empty
  /-- For every process that a signal has killed, the group of the object and its own. -/
  hits : List (ProcessGroup × ProcessGroup) := []
  /-- The same for every process that was launched. -/
  launches : List (ProcessGroup × ProcessGroup) := []

namespace World

/-- The groups that exist. -/
def groups (world : World) : List ProcessGroup := world.home :: world.procs.map Process.group

/-- A number that fork can return. -/
def Free (world : World) (pid : Nat) : Prop := pid ∉ world.procs.map Process.pid ∧ pid ∉ world.groups.map ProcessGroup.number

instance (world : World) (pid : Nat) : Decidable (world.Free pid) := inferInstanceAs (Decidable (_ ∧ _))

def live (world : World) (pid : Nat) : Option Process := world.procs.find? fun process => process.pid = pid ∧ ¬ process.exited

/-- `valid()`, and `grp != -1` -/
def valid (world : World) (name : Nat) : Bool := (world.handles.held name).isSome

/-- The group after `setpgid(0, number)` in a new child, which does not see whether that fails. -/
def setpgid (world : World) (number : Nat) : ProcessGroup :=
  (world.groups.find? fun group => group.number = number).getD world.home

/-- SIGKILL for every process of the group with the number. -/
def killpg (procs : List Process) (number : Nat) : List Process :=
  procs.map fun process => if process.group.number = number then { process with exited := true } else process

def running (world : World) (number : Nat) : List Process :=
  world.procs.filter fun process => process.group.number = number ∧ ¬ process.exited

/-- `killpg(-1, SIGKILL)` fails without an effect. -/
def terminate (world : World) (name : Nat) : World :=
  match world.handles.held name with
  | none => world
  | some group =>
    { world with
      procs := killpg world.procs group.number
      hits := (world.running group.number).map (fun process => (group, process.group)) ++ world.hits
      handles := world.handles.finish name .killed }

def attach (world : World) (name : Nat) (attached : Option Bool) : World :=
  { world with attached := Function.update world.attached name attached }

/-- A process with a group of its own. -/
def form (world : World) (pid : Nat) (procs : List Process) : World :=
  { world with procs := ⟨pid, ⟨pid, world.formed⟩, false⟩ :: procs, formed := world.formed + 1 }

def join (world : World) (pid : Nat) (group : ProcessGroup) : World :=
  { world with procs := ⟨pid, group, false⟩ :: world.procs }

/-- on_exec_setup in the child, and on_success if it gets as far as execve. -/
def launch (world : World) (name pid : Nat) (executed : Bool) : World :=
  match world.handles.held name with
  | none =>
    let next := world.form pid world.procs
    if executed then
      { next with
        handles := next.handles.acquire name ⟨pid, world.formed⟩
        launches := (⟨pid, world.formed⟩, ⟨pid, world.formed⟩) :: next.launches }
    else next
  | some group =>
    { world.join pid (world.setpgid group.number) with launches := (group, world.setpgid group.number) :: world.launches }

end World

inductive Op where
  | construct (name : Nat)
  | moveConstruct (name source : Nat)
  | moveAssign (name source : Nat)
  | detach (name : Nat)
  | terminate (name : Nat)
  | destroy (name : Nat)
  | launch (name pid : Nat) (executed : Bool)
  /-- A process forks. -/
  | fork (parent pid : Nat)
  /-- A process leaves its group for one of its own. -/
  | leave (pid : Nat)
  | exit (pid : Nat)
  /-- Somebody waits for a process that has exited: the group, a child object, another parent. -/
  | reap (pid : Nat)
  deriving DecidableEq, Repr

def step (world : World) : Op → Option World
  | .construct name => if world.attached name = none then some (world.attach name (some true)) else none
  | .moveConstruct name source =>
    match world.attached name, world.attached source with
    | none, some attached =>
      some ((({ world with handles := world.handles.give source name }).attach name (some attached)).attach source (some false))
    | _, _ => none
  | .moveAssign name source =>
    match world.attached name, world.attached source with
    | some _, some attached =>
      -- the number that was there is overwritten
      some (({ world with handles := (world.handles.finish name .abandoned).give source name }).attach name (some attached))
    | _, _ => none
  | .detach name => if world.attached name = none then none else some (world.attach name (some false))
  | .terminate name => if world.attached name = none then none else some (world.terminate name)
  | .destroy name =>
    match world.attached name with
    | none => none
    | some attached =>
      if attached && world.valid name then some ((world.terminate name).attach name none)
      else some (({ world with handles := world.handles.finish name .abandoned }).attach name none)
  | .launch name pid executed =>
    if world.attached name ≠ none ∧ world.Free pid then some (world.launch name pid executed) else none
  | .fork parent pid =>
    (world.live parent).bind fun process => if world.Free pid then some (world.join pid process.group) else none
  | .leave pid =>
    (world.live pid).bind fun process =>
      if pid ∈ world.groups.map ProcessGroup.number then none
      else some (world.form pid (world.procs.erase process))
  | .exit pid =>
    (world.live pid).map fun process => { world with procs := { process with exited := true } :: world.procs.erase process }
  | .reap pid =>
    (world.procs.find? fun process => process.pid = pid ∧ process.exited).map fun process =>
      { world with procs := world.procs.erase process }

/-- A launch finds the group of its object, and no other group has the number of one that is killed. -/
def Careful (world : World) : Op → Prop
  | .launch name _ _ => ∀ group, world.handles.held name = some group → group ∈ world.groups
  | .terminate name => ∀ group, world.handles.held name = some group →
    ∀ process ∈ world.running group.number, process.group = group
  | .destroy name => world.attached name = some true → ∀ group, world.handles.held name = some group →
    ∀ process ∈ world.running group.number, process.group = group
  | _ => True

/-- An object that has a group is neither assigned to nor destroyed while it is detached. -/
def Attentive (world : World) : Op → Prop
  | .moveAssign name _ => world.handles.held name = none
  | .destroy name => world.attached name = some true ∨ world.handles.held name = none
  | _ => True

/-! ## Groups and their numbers -/

/-- Groups that exist have different numbers, and no object ever has the group of this process. -/
structure Sound (world : World) : Prop where
  handles : world.handles.Sound
  numbers : ∀ first ∈ world.groups, ∀ second ∈ world.groups, first.number = second.number → first = second
  formed : ∀ group ∈ world.groups, group.serial < world.formed
  acquired : ∀ group ∈ world.handles.acquired, group.serial < world.formed ∧ group.number ≠ world.home.number
  object : ∀ name, world.handles.held name ≠ none → world.attached name ≠ none

variable {world next : World} {name source pid : Nat} {group : ProcessGroup} {process : Process}

theorem mem_groups : group ∈ world.groups ↔ group = world.home ∨ ∃ process ∈ world.procs, process.group = group := by
  unfold World.groups
  rw [List.mem_cons, List.mem_map]

theorem group_mem (present : process ∈ world.procs) : process.group ∈ world.groups :=
  mem_groups.mpr (.inr ⟨process, present, rfl⟩)

theorem setpgid_mem (number : Nat) : world.setpgid number ∈ world.groups := by
  unfold World.setpgid
  cases found : world.groups.find? fun group => group.number = number with
  | none => exact mem_groups.mpr (.inl rfl)
  | some group => exact List.mem_of_find?_eq_some found

/-- The child of a launch is in the group of the object exactly if that still exists. -/
theorem setpgid_eq_iff (sound : Sound world) : world.setpgid group.number = group ↔ group ∈ world.groups := by
  constructor
  · intro same
    rw [← same]
    exact setpgid_mem _
  · intro present
    unfold World.setpgid
    cases found : world.groups.find? fun other => other.number = group.number with
    | none =>
      rw [List.find?_eq_none] at found
      exact absurd (decide_eq_true rfl) (found group present)
    | some other =>
      have same : other.number = group.number := by simpa using List.find?_some found
      exact sound.numbers other (List.mem_of_find?_eq_some found) group present same

theorem live_eq_some (found : world.live pid = some process) : process ∈ world.procs ∧ process.exited = false := by
  refine ⟨List.mem_of_find?_eq_some found, ?_⟩
  have property := List.find?_some found
  simp only [decide_eq_true_eq] at property
  exact Bool.eq_false_iff.mpr property.2

theorem held_terminate (name : Nat) : (world.terminate name).handles.held name = none := by
  unfold World.terminate
  cases held : world.handles.held name with
  | none => exact held
  | some group => exact (Ledger.held_finish name).trans (if_pos rfl)

theorem groups_killpg (number : Nat) : (World.killpg world.procs number).map Process.group = world.procs.map Process.group := by
  unfold World.killpg
  rw [List.map_map]
  apply List.map_congr_left
  intro process present
  dsimp only [Function.comp_apply]
  split <;> rfl

namespace Sound

/-- No group comes into being. -/
theorem of_subset (sound : Sound world) {procs : List Process} (subset : ∀ process ∈ procs, process.group ∈ world.groups) :
    Sound { world with procs := procs } := by
  have within {group : ProcessGroup} (present : group ∈ World.groups { world with procs := procs }) : group ∈ world.groups := by
    rcases mem_groups.mp present with rfl | ⟨process, here, rfl⟩
    · exact mem_groups.mpr (.inl rfl)
    · exact subset process here
  exact ⟨sound.handles, fun first one second two => sound.numbers first (within one) second (within two),
    fun group present => sound.formed group (within present), sound.acquired, sound.object⟩

theorem join (sound : Sound world) (present : group ∈ world.groups) : Sound (world.join pid group) := by
  apply sound.of_subset
  intro process here
  cases List.mem_cons.mp here with
  | inl new => exact new ▸ present
  | inr old => exact group_mem old

theorem form (sound : Sound world) {procs : List Process} (subset : ∀ process ∈ procs, process ∈ world.procs)
    (free : pid ∉ world.groups.map ProcessGroup.number) : Sound (world.form pid procs) := by
  have origin {group : ProcessGroup} (present : group ∈ (world.form pid procs).groups) :
      group = ⟨pid, world.formed⟩ ∨ group ∈ world.groups := by
    rcases mem_groups.mp present with rfl | ⟨process, here, rfl⟩
    · exact .inr (mem_groups.mpr (.inl rfl))
    · cases List.mem_cons.mp here with
      | inl new => exact .inl (congrArg Process.group new)
      | inr old => exact .inr (group_mem (subset process old))
  have unused {group : ProcessGroup} (present : group ∈ world.groups) : group.number ≠ pid := by
    rintro rfl
    exact free (List.mem_map_of_mem present)
  constructor
  · exact sound.handles
  · intro first one second two same
    rcases origin one with rfl | one <;> rcases origin two with rfl | two
    · rfl
    · exact absurd same.symm (unused two)
    · exact absurd same (unused one)
    · exact sound.numbers first one second two same
  · intro group present
    rcases origin present with rfl | present
    · exact Nat.lt_succ_self _
    · exact Nat.lt_succ_of_lt (sound.formed group present)
  · exact fun group known => (sound.acquired group known).imp_left Nat.lt_succ_of_lt
  · exact sound.object

theorem attach (sound : Sound world) {attached : Option Bool} (kept : world.handles.held name ≠ none → attached ≠ none) :
    Sound (world.attach name attached) := by
  refine ⟨sound.handles, sound.numbers, sound.formed, sound.acquired, ?_⟩
  intro other has
  unfold World.attach
  dsimp only
  rw [Function.update_apply]
  split
  · rename_i same
    exact kept (same ▸ has)
  · exact sound.object other has

theorem finish (sound : Sound world) (name : Nat) (way : Way) :
    Sound { world with handles := world.handles.finish name way } := by
  refine ⟨sound.handles.finish name way, sound.numbers, sound.formed, sound.acquired, ?_⟩
  intro other has
  apply sound.object other
  intro nothing
  apply has
  rw [Ledger.held_finish, nothing, ite_self]

theorem terminate (sound : Sound world) (name : Nat) : Sound (world.terminate name) := by
  unfold World.terminate
  cases held : world.handles.held name with
  | none => exact sound
  | some group =>
    have killed : Sound { world with procs := World.killpg world.procs group.number } := sound.of_subset fun process here => by
      have present : process.group ∈ world.procs.map Process.group := by
        rw [← groups_killpg group.number]
        exact List.mem_map_of_mem here
      exact List.mem_cons_of_mem _ present
    have finished := killed.finish name .killed
    exact ⟨finished.handles, finished.numbers, finished.formed, finished.acquired, finished.object⟩

theorem launch (sound : Sound world) (exists' : world.attached name ≠ none) (free : world.Free pid) (executed : Bool) :
    Sound (world.launch name pid executed) := by
  unfold World.launch
  cases held : world.handles.held name with
  | some group =>
    have joined : Sound (world.join pid _) := sound.join (setpgid_mem group.number)
    exact ⟨joined.handles, joined.numbers, joined.formed, joined.acquired, joined.object⟩
  | none =>
    have formed := sound.form (fun process present => present) free.2
    cases executed with
    | false => exact formed
    | true =>
      have fresh : (⟨pid, world.formed⟩ : ProcessGroup) ∉ world.handles.acquired :=
        fun known => Nat.lt_irrefl _ (sound.acquired _ known).1
      refine ⟨formed.handles.acquire held fresh, formed.numbers, formed.formed, ?_, ?_⟩
      · intro group known
        cases List.mem_cons.mp known with
        | inl new =>
          subst new
          refine ⟨Nat.lt_succ_self _, fun same => free.2 ?_⟩
          have same : pid = world.home.number := same
          exact same ▸ List.mem_map_of_mem (mem_groups.mpr (.inl rfl))
        | inr old => exact formed.acquired group old
      · intro other has
        by_cases same : other = name
        · exact same ▸ exists'
        · apply sound.object other
          intro nothing
          apply has
          exact (Function.update_of_ne same _ _).trans nothing

/-- The source object is left without a group, the target has its one. -/
theorem give (sound : Sound world) {flag : Bool} (vacant : world.handles.held name = none) :
    Sound ({ world with handles := world.handles.give source name }.attach name (some flag)) := by
  refine ⟨sound.handles.give source vacant, sound.numbers, sound.formed, sound.acquired, ?_⟩
  intro other has
  unfold World.attach
  dsimp only
  by_cases same : other = name
  · rw [same, Function.update_self]
    exact Option.some_ne_none flag
  · rw [Function.update_of_ne same]
    apply sound.object other
    intro nothing
    apply has
    change (world.handles.give source name).held other = none
    rw [Ledger.held_give, if_neg same, nothing, ite_self]

end Sound

theorem step_destroy (taken : step world (.destroy name) = some next) :
    (world.attached name = some true ∧ next = (world.terminate name).attach name none) ∨
      (world.attached name = some true → world.handles.held name = none) ∧
        next = World.attach { world with handles := world.handles.finish name .abandoned } name none := by
  simp only [step] at taken
  split at taken
  · cases taken
  · rename_i flag present
    split at taken
    · rename_i kills
      rw [Bool.and_eq_true] at kills
      cases taken
      exact .inl ⟨kills.1 ▸ present, rfl⟩
    · rename_i spares
      rw [Bool.and_eq_true, not_and, World.valid, Option.isSome_iff_ne_none, not_not] at spares
      cases taken
      refine .inr ⟨fun on => spares ?_, rfl⟩
      exact Option.some.inj (present.symm.trans on)

theorem step_sound : Preserves step (fun _ _ => True) Sound := by
  intro world op next sound _ taken
  cases op with
  | construct name =>
    obtain ⟨-, ⟨⟩⟩ := Option.ite_none_right_eq_some.mp taken
    exact sound.attach fun _ => Option.some_ne_none true
  | moveConstruct name source =>
    simp only [step] at taken
    split at taken
    · rename_i flag absent _
      cases taken
      have vacant : world.handles.held name = none := by
        by_contra has
        exact sound.object name has absent
      exact (sound.give vacant).attach fun _ => Option.some_ne_none false
    · cases taken
  | moveAssign name source =>
    simp only [step] at taken
    split at taken
    · cases taken
      apply (sound.finish name .abandoned).give
      exact (Ledger.held_finish name).trans (if_pos rfl)
    · cases taken
  | detach name =>
    obtain ⟨-, ⟨⟩⟩ := Option.ite_none_left_eq_some.mp taken
    exact sound.attach fun _ => Option.some_ne_none false
  | terminate name =>
    obtain ⟨-, ⟨⟩⟩ := Option.ite_none_left_eq_some.mp taken
    exact sound.terminate name
  | destroy name =>
    obtain ⟨-, rfl⟩ | ⟨-, rfl⟩ := step_destroy taken
    · apply (sound.terminate name).attach
      exact fun has => absurd (held_terminate name) has
    · apply (sound.finish name .abandoned).attach
      exact fun has => absurd ((Ledger.held_finish name).trans (if_pos rfl)) has
  | launch name pid executed =>
    obtain ⟨⟨exists', free⟩, ⟨⟩⟩ := Option.ite_none_right_eq_some.mp taken
    exact sound.launch exists' free executed
  | fork parent pid =>
    obtain ⟨process, found, taken⟩ := Option.bind_eq_some_iff.mp taken
    obtain ⟨-, ⟨⟩⟩ := Option.ite_none_right_eq_some.mp taken
    exact sound.join (group_mem (live_eq_some found).1)
  | leave pid =>
    obtain ⟨process, -, taken⟩ := Option.bind_eq_some_iff.mp taken
    obtain ⟨free, ⟨⟩⟩ := Option.ite_none_left_eq_some.mp taken
    exact sound.form (fun other present => List.mem_of_mem_erase present) free
  | exit pid =>
    obtain ⟨process, found, rfl⟩ := Option.map_eq_some_iff.mp taken
    apply sound.of_subset
    intro other present
    cases List.mem_cons.mp present with
    | inl same =>
      have before := group_mem (live_eq_some found).1
      exact same ▸ before
    | inr old => exact group_mem (List.mem_of_mem_erase old)
  | reap pid =>
    obtain ⟨process, -, rfl⟩ := Option.map_eq_some_iff.mp taken
    exact sound.of_subset fun other present => group_mem (List.mem_of_mem_erase present)

/-- Operations that send no signal, launch nothing and let no group go. -/
def Op.Quiet : Op → Prop
  | .moveAssign .. | .terminate _ | .destroy _ | .launch .. => False
  | _ => True

theorem quiet_frame {op : Op} (taken : step world op = some next) (quiet : op.Quiet) :
    next.handles.ended = world.handles.ended ∧ next.hits = world.hits ∧ next.launches = world.launches := by
  cases op with
  | construct name =>
    obtain ⟨-, ⟨⟩⟩ := Option.ite_none_right_eq_some.mp taken
    exact ⟨rfl, rfl, rfl⟩
  | moveConstruct name source =>
    simp only [step] at taken
    split at taken
    · cases taken
      exact ⟨rfl, rfl, rfl⟩
    · cases taken
  | detach name =>
    obtain ⟨-, ⟨⟩⟩ := Option.ite_none_left_eq_some.mp taken
    exact ⟨rfl, rfl, rfl⟩
  | fork parent pid =>
    obtain ⟨process, -, taken⟩ := Option.bind_eq_some_iff.mp taken
    obtain ⟨-, ⟨⟩⟩ := Option.ite_none_right_eq_some.mp taken
    exact ⟨rfl, rfl, rfl⟩
  | leave pid =>
    obtain ⟨process, -, taken⟩ := Option.bind_eq_some_iff.mp taken
    obtain ⟨-, ⟨⟩⟩ := Option.ite_none_left_eq_some.mp taken
    exact ⟨rfl, rfl, rfl⟩
  | exit pid =>
    obtain ⟨process, -, rfl⟩ := Option.map_eq_some_iff.mp taken
    exact ⟨rfl, rfl, rfl⟩
  | reap pid =>
    obtain ⟨process, -, rfl⟩ := Option.map_eq_some_iff.mp taken
    exact ⟨rfl, rfl, rfl⟩
  | moveAssign | terminate | destroy | launch => exact absurd quiet not_false

/-- A process before its first group object. -/
structure Initial (world : World) : Prop where
  attached : world.attached = fun _ => none
  handles : world.handles = Ledger.empty
  hits : world.hits = []
  launches : world.launches = []
  numbers : ∀ first ∈ world.groups, ∀ second ∈ world.groups, first.number = second.number → first = second
  formed : ∀ group ∈ world.groups, group.serial < world.formed

theorem Initial.sound (initial : Initial world) : Sound world := by
  refine ⟨?_, initial.numbers, initial.formed, ?_, ?_⟩
  · rw [initial.handles]
    exact Ledger.sound_empty
  · rw [initial.handles]
    exact nofun
  · intro name has
    rw [initial.handles] at has
    exact absurd rfl has

/-! ## The fate of a group -/

/-- The group of an object ends with the step. -/
def Ends (world : World) (group : ProcessGroup) : Op → Way → Prop
  | .moveAssign name _, .abandoned => world.handles.held name = some group
  | .terminate name, .killed => world.handles.held name = some group
  | .destroy name, .killed => world.attached name = some true ∧ world.handles.held name = some group
  | .destroy name, .abandoned => world.attached name ≠ some true ∧ world.handles.held name = some group
  | _, _ => False

theorem ended_terminate {way : Way} : (way, group) ∈ (world.terminate name).handles.ended ↔
    (way = .killed ∧ world.handles.held name = some group) ∨ (way, group) ∈ world.handles.ended := by
  unfold World.terminate
  cases held : world.handles.held name with
  | none =>
    constructor
    · exact .inr
    · rintro (⟨-, ⟨⟩⟩ | old)
      exact old
  | some aimed =>
    have ended : (way, group) ∈ (world.handles.finish name .killed).ended ↔ _ := Ledger.mem_ended_finish
    rw [held] at ended
    exact ended

theorem ended_launch (executed : Bool) : (world.launch name pid executed).handles.ended = world.handles.ended := by
  unfold World.launch
  cases world.handles.held name with
  | some group => rfl
  | none => cases executed <;> rfl

theorem ended_of_step {op : Op} {way : Way} (taken : step world op = some next) :
    (way, group) ∈ next.handles.ended ↔ Ends world group op way ∨ (way, group) ∈ world.handles.ended := by
  cases op with
  | moveAssign name source =>
    simp only [step] at taken
    split at taken
    · cases taken
      have ended : (way, group) ∈ (world.handles.finish name .abandoned).ended ↔ _ := Ledger.mem_ended_finish
      apply ended.trans
      cases way <;> simp [Ends]
    · cases taken
  | terminate name =>
    obtain ⟨-, ⟨⟩⟩ := Option.ite_none_left_eq_some.mp taken
    apply ended_terminate.trans
    cases way <;> simp [Ends]
  | destroy name =>
    obtain ⟨on, rfl⟩ | ⟨nothing, rfl⟩ := step_destroy taken
    · apply ended_terminate.trans
      cases way <;> simp [Ends, on]
    · have ended : (way, group) ∈ (world.handles.finish name .abandoned).ended ↔ _ := Ledger.mem_ended_finish
      apply ended.trans
      apply or_congr_left
      -- an object that is attached has no group here
      have held_off (here : world.handles.held name = some group) : world.attached name ≠ some true :=
        fun on => Option.some_ne_none group (here.symm.trans (nothing on))
      cases way with
      | killed => exact ⟨fun both => absurd both.1 nofun, fun both => absurd both.1 (held_off both.2)⟩
      | abandoned => exact ⟨fun both => ⟨held_off both.2, both.2⟩, fun both => ⟨rfl, both.2⟩⟩
  | launch name pid executed =>
    obtain ⟨-, ⟨⟩⟩ := Option.ite_none_right_eq_some.mp taken
    rw [ended_launch]
    exact (or_iff_right not_false).symm
  | construct | moveConstruct | detach | fork | leave | exit | reap =>
    rw [(quiet_frame taken trivial).1]
    exact (or_iff_right not_false).symm

/-- A step by which an object lets a group go without killing it. -/
theorem abandoned_step {op : Op} (taken : step world op = some next) (kept : ∀ group, (.abandoned, group) ∉ world.handles.ended) :
    (∀ group, (.abandoned, group) ∉ next.handles.ended) ↔ Attentive world op := by
  have ends : (∀ group, (.abandoned, group) ∉ next.handles.ended) ↔ ∀ group, ¬ Ends world group op .abandoned := by
    apply forall_congr'
    intro group
    rw [ended_of_step taken, not_or]
    exact and_iff_left (kept group)
  rw [ends]
  cases op with
  | moveAssign name source => exact Option.eq_none_iff_forall_ne_some.symm
  | destroy name =>
    constructor
    · intro never
      by_cases on : world.attached name = some true
      · exact .inl on
      · exact .inr (Option.eq_none_iff_forall_ne_some.mpr fun group here => never group ⟨on, here⟩)
    · rintro (on | nothing) group ⟨off, here⟩
      · exact off on
      · exact Option.some_ne_none group (here.symm.trans nothing)
  | construct | moveConstruct | detach | terminate | launch | fork | leave | exit | reap =>
    exact iff_of_true (fun _ => not_false) trivial

/-- In every run each group that launches gave to an object has one object, or was killed once, or was
let go once; and none is let go as long as no object that has one is assigned to or destroyed detached. -/
theorem fate_of_run (world final : World) (ops : List Op) (initial : Initial world) (reached : run step world ops = some final) :
    (∀ group ∈ final.handles.acquired, final.handles.Fate group) ∧
      ((∀ group, (.abandoned, group) ∉ final.handles.ended) ↔ Admits step Attentive world ops) := by
  have sound := run_invariant step_sound initial.sound admits_true reached
  refine ⟨fun group known => sound.handles.fate known, ?_⟩
  apply last_iff_admits (fun _ _ _ kept taken => abandoned_step taken kept) _ _ reached
  · intro world op next lost taken kept
    apply lost
    intro group old
    exact kept group ((ended_of_step taken).mpr (.inr old))
  · intro group
    rw [initial.handles]
    exact List.not_mem_nil

/-- This process and one other. -/
def other : World where
  procs := [⟨20, ⟨20, 1⟩, false⟩]
  home := ⟨1, 0⟩
  formed := 2

theorem other_initial : Initial other :=
  ⟨rfl, rfl, rfl, rfl, by decide, by decide⟩

/-- One group goes through two objects and is killed, one is let go. -/
def twoGroups : List Op :=
  [.construct 0, .launch 0 10 true, .launch 0 11 true, .exit 10, .reap 10, .moveConstruct 1 0, .launch 0 12 true, .detach 0,
    .destroy 1, .destroy 0]

theorem fate_of_run_twoGroups : ∃ final, run step other twoGroups = some final ∧
    final.handles.ended = [(.abandoned, ⟨12, 3⟩), (.killed, ⟨10, 2⟩)] ∧
      ∀ group ∈ final.handles.acquired, final.handles.Fate group :=
  ⟨_, rfl, rfl, (fate_of_run other _ twoGroups other_initial rfl).1⟩

/-! ## Who is in a group, and who is killed -/

def Straight (world : World) : Prop := (∀ hit ∈ world.hits, hit.1 = hit.2) ∧ ∀ launch ∈ world.launches, launch.1 = launch.2

theorem straight_terminate (straight : Straight world) : Straight (world.terminate name) ↔
    ∀ group, world.handles.held name = some group → ∀ process ∈ world.running group.number, process.group = group := by
  unfold World.terminate
  cases held : world.handles.held name with
  | none => exact iff_of_true straight nofun
  | some group =>
    constructor
    · rintro ⟨hits, -⟩ _ ⟨⟩ process present
      have hit := hits (group, process.group)
      apply (hit _).symm
      exact List.mem_append_left _ (List.mem_map.mpr ⟨process, present, rfl⟩)
    · intro met
      refine ⟨fun hit member => ?_, straight.2⟩
      cases List.mem_append.mp member with
      | inl new =>
        obtain ⟨process, present, rfl⟩ := List.mem_map.mp new
        exact (met group rfl process present).symm
      | inr old => exact straight.1 hit old

theorem straight_launch (sound : Sound world) (straight : Straight world) (executed : Bool) :
    Straight (world.launch name pid executed) ↔ ∀ group, world.handles.held name = some group → group ∈ world.groups := by
  unfold World.launch
  cases held : world.handles.held name with
  | none =>
    refine iff_of_true ?_ nofun
    cases executed with
    | false => exact straight
    | true =>
      refine ⟨straight.1, fun launch member => ?_⟩
      cases List.mem_cons.mp member with
      | inl new => rw [new]
      | inr old => exact straight.2 launch old
  | some group =>
    constructor
    · rintro ⟨-, launches⟩ _ ⟨⟩
      have same : group = world.setpgid group.number := launches (group, world.setpgid group.number) List.mem_cons_self
      exact (setpgid_eq_iff sound).mp same.symm
    · intro met
      refine ⟨straight.1, fun launch member => ?_⟩
      cases List.mem_cons.mp member with
      | inl new =>
        rw [new]
        exact ((setpgid_eq_iff sound).mpr (met group rfl)).symm
      | inr old => exact straight.2 launch old

theorem log_grows {op : Op} (taken : step world op = some next) :
    (∀ hit ∈ world.hits, hit ∈ next.hits) ∧ ∀ launch ∈ world.launches, launch ∈ next.launches := by
  have terminated (name : Nat) : (∀ hit ∈ world.hits, hit ∈ (world.terminate name).hits) ∧
      ∀ launch ∈ world.launches, launch ∈ (world.terminate name).launches := by
    unfold World.terminate
    cases world.handles.held name with
    | none => exact ⟨fun _ member => member, fun _ member => member⟩
    | some group => exact ⟨fun _ member => List.mem_append_right _ member, fun _ member => member⟩
  cases op with
  | terminate name =>
    obtain ⟨-, ⟨⟩⟩ := Option.ite_none_left_eq_some.mp taken
    exact terminated name
  | destroy name =>
    obtain ⟨-, rfl⟩ | ⟨-, rfl⟩ := step_destroy taken
    · exact terminated name
    · exact ⟨fun _ member => member, fun _ member => member⟩
  | launch name pid executed =>
    obtain ⟨-, ⟨⟩⟩ := Option.ite_none_right_eq_some.mp taken
    unfold World.launch
    cases world.handles.held name with
    | some group => exact ⟨fun _ member => member, fun _ member => List.mem_cons_of_mem _ member⟩
    | none =>
      cases executed with
      | false => exact ⟨fun _ member => member, fun _ member => member⟩
      | true => exact ⟨fun _ member => member, fun _ member => List.mem_cons_of_mem _ member⟩
  | moveAssign name source =>
    simp only [step] at taken
    split at taken
    · cases taken
      exact ⟨fun _ member => member, fun _ member => member⟩
    · cases taken
  | construct | moveConstruct | detach | fork | leave | exit | reap =>
    obtain ⟨-, hits, launches⟩ := quiet_frame taken trivial
    rw [hits, launches]
    exact ⟨fun _ member => member, fun _ member => member⟩

theorem straight_step {op : Op} (sound : Sound world) (straight : Straight world) (taken : step world op = some next) :
    Straight next ↔ Careful world op := by
  cases op with
  | terminate name =>
    obtain ⟨-, ⟨⟩⟩ := Option.ite_none_left_eq_some.mp taken
    exact straight_terminate straight
  | destroy name =>
    obtain ⟨on, rfl⟩ | ⟨nothing, rfl⟩ := step_destroy taken
    · exact (straight_terminate straight).trans ⟨fun met _ => met, fun met => met on⟩
    · apply iff_of_true straight
      intro on group here
      exact absurd (here.symm.trans (nothing on)) (Option.some_ne_none group)
  | launch name pid executed =>
    obtain ⟨-, ⟨⟩⟩ := Option.ite_none_right_eq_some.mp taken
    exact straight_launch sound straight executed
  | moveAssign name source =>
    simp only [step] at taken
    split at taken
    · cases taken
      exact iff_of_true straight trivial
    · cases taken
  | construct | moveConstruct | detach | fork | leave | exit | reap =>
    obtain ⟨-, hits, launches⟩ := quiet_frame taken trivial
    unfold Straight
    rw [hits, launches]
    exact iff_of_true straight trivial

/-- Once a group was killed, none of its processes runs. -/
def Dead (world : World) : Prop :=
  ∀ group, (.killed, group) ∈ world.handles.ended → ∀ process ∈ world.procs, process.group = group → process.exited = true

theorem mem_killpg {number : Nat} (present : process ∈ World.killpg world.procs number) :
    (process.group.number = number ∧ process.exited = true) ∨ process ∈ world.procs := by
  obtain ⟨before, here, rfl⟩ := List.mem_map.mp present
  split
  · rename_i hit
    exact .inl ⟨hit, rfl⟩
  · exact .inr here

theorem dead_terminate (dead : Dead world) : Dead (world.terminate name) := by
  intro group ended process present same
  rw [ended_terminate] at ended
  unfold World.terminate at present
  cases held : world.handles.held name with
  | none =>
    rw [held] at present ended
    exact dead group (ended.resolve_left fun both => nomatch both.2) process present same
  | some aimed =>
    rw [held] at present ended
    obtain ⟨-, exited⟩ | old := mem_killpg present
    · exact exited
    · cases ended with
      | inr before => exact dead group before process old same
      | inl now =>
        -- a process that is as it was has another number
        obtain ⟨-, ⟨⟩⟩ := now
        obtain ⟨before, here, rfl⟩ := List.mem_map.mp present
        split at same
        · rename_i hit
          rw [if_pos hit]
        · rename_i missed
          exact absurd (congrArg ProcessGroup.number same) missed

namespace Dead

/-- Processes may come that are in no group that was killed. -/
theorem of_subset (dead : Dead world)
    (ended : ∀ group, (.killed, group) ∈ next.handles.ended → (.killed, group) ∈ world.handles.ended)
    (procs : ∀ process ∈ next.procs, process ∈ world.procs ∨ process.exited = true ∨
      (.killed, process.group) ∉ world.handles.ended) :
    Dead next := by
  intro group killed process present same
  obtain old | exited | alive := procs process present
  · exact dead group (ended group killed) process old same
  · exact exited
  · exact absurd (same ▸ ended group killed) alive

theorem form (sound : Sound world) (dead : Dead world) {procs : List Process}
    (subset : ∀ process ∈ procs, process ∈ world.procs) :
    Dead (world.form pid procs) := by
  refine dead.of_subset (fun group killed => killed) ?_
  intro process present
  cases List.mem_cons.mp present with
  | inr old => exact .inl (subset process old)
  | inl new =>
    refine .inr (.inr fun killed => ?_)
    have known := sound.handles.own process.group ⟨.killed, killed⟩
    rw [new] at known
    exact Nat.lt_irrefl _ (sound.acquired _ known).1

theorem launch (sound : Sound world) (dead : Dead world) {executed : Bool}
    (careful : ∀ group, world.handles.held name = some group → group ∈ world.groups) : Dead (world.launch name pid executed) := by
  unfold World.launch
  cases held : world.handles.held name with
  | none =>
    have formed : Dead (world.form pid world.procs) := form sound dead fun _ present => present
    cases executed with
    | false => exact formed
    | true => exact formed
  | some group =>
    refine dead.of_subset (fun group killed => killed) ?_
    intro process present
    cases List.mem_cons.mp present with
    | inr old => exact .inl old
    | inl new =>
      -- the group of an object has not been killed
      refine .inr (.inr fun killed => sound.handles.not_ended held ⟨.killed, ?_⟩)
      rw [new] at killed
      rwa [(setpgid_eq_iff sound).mpr (careful group held)] at killed

end Dead

theorem step_dead : Preserves step Careful fun world => Sound world ∧ Dead world := by
  rintro world op next ⟨sound, dead⟩ careful taken
  refine ⟨step_sound world op next sound trivial taken, ?_⟩
  cases op with
  | construct name =>
    obtain ⟨-, ⟨⟩⟩ := Option.ite_none_right_eq_some.mp taken
    exact dead
  | moveConstruct name source =>
    simp only [step] at taken
    split at taken
    · cases taken
      exact dead
    · cases taken
  | moveAssign name source =>
    simp only [step] at taken
    split at taken
    · cases taken
      refine dead.of_subset ?_ fun process present => .inl present
      intro group killed
      exact (Ledger.mem_ended_finish.mp killed).resolve_left fun both => nomatch both.1
    · cases taken
  | detach name =>
    obtain ⟨-, ⟨⟩⟩ := Option.ite_none_left_eq_some.mp taken
    exact dead
  | terminate name =>
    obtain ⟨-, ⟨⟩⟩ := Option.ite_none_left_eq_some.mp taken
    exact dead_terminate dead
  | destroy name =>
    obtain ⟨-, rfl⟩ | ⟨-, rfl⟩ := step_destroy taken
    · exact dead_terminate dead
    · refine dead.of_subset ?_ fun process present => .inl present
      intro group killed
      exact (Ledger.mem_ended_finish.mp killed).resolve_left fun both => nomatch both.1
  | launch name pid executed =>
    obtain ⟨-, ⟨⟩⟩ := Option.ite_none_right_eq_some.mp taken
    exact dead.launch sound careful
  | fork parent pid =>
    obtain ⟨process, found, taken⟩ := Option.bind_eq_some_iff.mp taken
    obtain ⟨-, ⟨⟩⟩ := Option.ite_none_right_eq_some.mp taken
    obtain ⟨here, running⟩ := live_eq_some found
    refine dead.of_subset (fun group killed => killed) ?_
    intro child present
    cases List.mem_cons.mp present with
    | inr old => exact .inl old
    | inl new =>
      refine .inr (.inr fun killed => ?_)
      rw [new] at killed
      exact Bool.false_ne_true (running.symm.trans (dead _ killed process here rfl))
  | leave pid =>
    obtain ⟨process, -, taken⟩ := Option.bind_eq_some_iff.mp taken
    obtain ⟨-, ⟨⟩⟩ := Option.ite_none_left_eq_some.mp taken
    exact dead.form sound fun other present => List.mem_of_mem_erase present
  | exit pid =>
    obtain ⟨process, found, rfl⟩ := Option.map_eq_some_iff.mp taken
    refine dead.of_subset (fun group killed => killed) ?_
    intro other present
    cases List.mem_cons.mp present with
    | inl new => exact .inr (.inl (congrArg Process.exited new))
    | inr old => exact .inl (List.mem_of_mem_erase old)
  | reap pid =>
    obtain ⟨process, -, rfl⟩ := Option.map_eq_some_iff.mp taken
    exact dead.of_subset (fun group killed => killed) fun other present => .inl (List.mem_of_mem_erase present)

/-- In a run everything that group objects launch is in their group and everything they kill was, exactly
if each launch finds the group and no group that is killed has lost its number to another one. Then none of
a group that was killed ever runs. -/
theorem straight_iff_careful (world final : World) (ops : List Op) (initial : Initial world)
    (reached : run step world ops = some final) :
    (Straight final ↔ Admits step Careful world ops) ∧ (Admits step Careful world ops → Dead final) := by
  constructor
  · apply last_iff_admits_of_sound step_sound (fun _ _ _ sound straight taken => straight_step sound straight taken) _
      initial.sound _ reached
    · intro world op next _ bent taken straight
      obtain ⟨hits, launches⟩ := log_grows taken
      exact bent ⟨fun hit member => straight.1 hit (hits hit member), fun launch member =>
        straight.2 launch (launches launch member)⟩
    · unfold Straight
      rw [initial.hits, initial.launches]
      exact ⟨nofun, nofun⟩
  · intro admitted
    refine (run_invariant step_dead ⟨initial.sound, ?_⟩ admitted reached).2
    intro group killed
    rw [initial.handles] at killed
    exact absurd killed List.not_mem_nil

/-- A group has been waited for, its number is used again, and its object is destroyed. -/
def waited : List Op :=
  [.construct 0, .launch 0 10 true, .exit 10, .reap 10, .fork 20 10, .leave 10, .destroy 0]

theorem straight_iff_careful_waited : ∃ final, run step other waited = some final ∧
    final.hits = [(⟨10, 2⟩, ⟨10, 3⟩)] ∧ (Straight final ↔ Admits step Careful other waited) :=
  ⟨_, rfl, rfl, (straight_iff_careful other _ waited other_initial rfl).1⟩

end BoostProcess.V1.Posix.GroupObjects
