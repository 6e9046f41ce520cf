import BoostProcess.V2.Posix.Bindings
import BoostProcess.V2.Posix.Whitelist

/-! process_stdio and bind_fd together: the dup2 calls of all bindings run one after
another, while the caller asks for an assignment of files to targets.
-/

set_option autoImplicit false

namespace BoostProcess.V2.Posix

open Descriptors

inductive Binding where
  | stdio (input output error : Int) (refusals : Fin 3 → Option Errno)
  | fd (target source : Int) (refusal : Option Errno)

namespace Binding

def initializer : Binding → Initializer
  | .stdio input output error refusals => processStdio input output error refusals
  | .fd target source refusal => bindFd target source refusal

def moves : Binding → List Table.Move
  | .stdio input output error _ => [⟨input, 0⟩, ⟨output, 1⟩, ⟨error, 2⟩]
  | .fd target source _ => [⟨source, target⟩]

/-- The targets that on_setup whitelists. -/
def whitelisted : Binding → List Int
  | .stdio .. => []
  | .fd target .. => [target]

/-- The hook of one binding, when it succeeds, makes the calls of its moves. -/
theorem onExecSetup_moves (binding : Binding) {child : Child}
    (succeeded : ¬ (binding.initializer.onExecSetup child).ec.failed = true) :
    child.fds.dup2All binding.moves = some (binding.initializer.onExecSetup child).child.fds ∧
      (binding.initializer.onExecSetup child).whitelisted = [] := by
  cases binding with
  | stdio input output error refusals =>
    simp only [initializer, processStdio] at succeeded ⊢
    by_cases first : (duplicate (refusals 0) input 0 child).ec.failed = true
    · rw [if_pos first] at succeeded
      exact absurd first succeeded
    · rw [if_neg first] at succeeded ⊢
      by_cases second : (duplicate (refusals 1) output 1 (duplicate (refusals 0) input 0 child).child).ec.failed = true
      · rw [if_pos second] at succeeded
        exact absurd second succeeded
      · rw [if_neg second] at succeeded ⊢
        simp [moves, Table.dup2All, duplicate_succeeded first, duplicate_succeeded second,
          duplicate_succeeded succeeded]
  | fd target source refusal =>
    simp only [initializer, bindFd] at succeeded ⊢
    simp [moves, Table.dup2All, duplicate_succeeded succeeded]

theorem onExecSetup_all {bindings : List Binding} {child : Child}
    (succeeded : ¬ (Posix.onExecSetup (bindings.map initializer) child).ec.failed = true) :
    child.fds.dup2All (bindings.flatMap moves) =
        some (Posix.onExecSetup (bindings.map initializer) child).child.fds ∧
      (Posix.onExecSetup (bindings.map initializer) child).whitelisted = [] := by
  induction bindings generalizing child with
  | nil => exact ⟨rfl, rfl⟩
  | cons binding rest ih =>
    simp only [List.map_cons, Posix.onExecSetup] at succeeded ⊢
    by_cases failed : (binding.initializer.onExecSetup child).ec.failed = true
    · rw [if_pos failed] at succeeded
      exact absurd failed succeeded
    · rw [if_neg failed] at succeeded ⊢
      obtain ⟨own, ownList⟩ := binding.onExecSetup_moves failed
      obtain ⟨later, laterList⟩ := ih succeeded
      refine ⟨?_, ?_⟩
      · rw [List.flatMap_cons, Table.dup2All_append]
        exact ⟨_, own, later⟩
      · simp [ownList, laterList]

/-- on_setup never fails and whitelists the targets of every bind_fd. -/
theorem onSetup_all (bindings : List Binding) (errno : Int) :
    (Posix.onSetup (bindings.map initializer) errno).whitelisted = bindings.flatMap whitelisted := by
  induction bindings generalizing errno with
  | nil => rfl
  | cons binding rest ih =>
    have own (before : Int) : (binding.initializer.onSetup before).ec = .clear ∧
        (binding.initializer.onSetup before).whitelisted = binding.whitelisted := by
      cases binding <;> exact ⟨rfl, rfl⟩
    simp [Posix.onSetup, own, ih]

theorem target_whitelisted {bindings : List Binding} {move : Table.Move} (member : move ∈ bindings.flatMap moves) :
    move.target ∈ [0, 1, 2] ++ bindings.flatMap whitelisted := by
  obtain ⟨binding, present, own⟩ := List.mem_flatMap.mp member
  cases binding with
  | stdio input output error refusals =>
    apply List.mem_append_left
    simp only [moves, List.mem_cons, List.not_mem_nil, or_false] at own
    rcases own with rfl | rfl | rfl <;> simp
  | fd target source refusal =>
    apply List.mem_append_right
    rw [List.mem_singleton.mp own]
    exact List.mem_flatMap.mpr ⟨_, present, List.mem_singleton.mpr rfl⟩

theorem whitelisted_target {bindings : List Binding} {fd : Int} (member : fd ∈ bindings.flatMap whitelisted) :
    ∃ move ∈ bindings.flatMap moves, move.target = fd := by
  obtain ⟨binding, present, own⟩ := List.mem_flatMap.mp member
  cases binding with
  | stdio input output error refusals => cases own
  | fd target source refusal =>
    exact ⟨⟨source, target⟩, List.mem_flatMap.mpr ⟨_, present, List.mem_singleton.mpr rfl⟩,
      (List.mem_singleton.mp own).symm⟩

end Binding

/-! ## The executed image -/

/-- Every target is open in the image and refers to the file that its source
referred to in the parent. -/
def Bound (fds : Table Nat) (image : Table File) (moves : List Table.Move) : Prop :=
  ∀ move ∈ moves, ∃ file, fds.file move.source = some file ∧ image.file move.target = some (.opened file)

section
variable {launch : Launch} {pipe : Pipe} {errno : Int} {moves : List Table.Move}

/-- The descriptors of the parent that are not the launcher's own reach the child. -/
theorem forked_source {source : Int} (fresh : launch.fds pipe.read = none ∧ launch.fds pipe.write = none)
    (opened : launch.fds.Open source) :
    (DefaultLauncher.forkedChild launch pipe errno).fds source = openedFds launch.fds source := by
  have notRead : source ≠ pipe.read := by
    intro same
    simp [Table.Open, same, fresh.1] at opened
  have notWrite : source ≠ pipe.write := by
    intro same
    simp [Table.Open, same, fresh.2] at opened
  simp [DefaultLauncher.forkedChild, withErrorPipe, notRead, notWrite]

theorem openedFds_file (fds : Table Nat) (number : Int) :
    (openedFds fds).file number = (fds.file number).map .opened := by
  simp [openedFds, Table.file, Function.comp_def]

theorem openedFds_exec_open (fds : Table Nat) (number : Int) :
    (openedFds fds).exec.Open number ↔ fds.exec.Open number := by
  simp only [openedFds, Table.exec, Table.Open]
  cases fds number with
  | none => rfl
  | some descriptor =>
    cases descriptor with
    | mk file flag => cases flag <;> rfl

/-- Compatibility is a matter of the parent's files. -/
theorem forked_compatible (fresh : launch.fds pipe.read = none ∧ launch.fds pipe.write = none)
    (opened : ∀ move ∈ moves, launch.fds.Open move.source) :
    Table.Compatible (DefaultLauncher.forkedChild launch pipe errno).fds moves ↔
      Table.Compatible launch.fds moves := by
  have file (move : Table.Move) (member : move ∈ moves) :
      (DefaultLauncher.forkedChild launch pipe errno).fds.file move.source =
        (launch.fds.file move.source).map .opened := by
    rw [← openedFds_file]
    simp only [Table.file, forked_source fresh (opened move member)]
  apply List.Pairwise.iff_of_mem
  intro earlier later early late
  rw [file earlier early, file later late, (Option.map_injective fun _ _ => File.opened.inj).eq_iff]

theorem forked_exec_open (fresh : launch.fds pipe.read = none ∧ launch.fds pipe.write = none)
    (opened : ∀ move ∈ moves, launch.fds.Open move.source) :
    (∀ move ∈ moves, move.source = move.target →
        (DefaultLauncher.forkedChild launch pipe errno).fds.exec.Open move.target) ↔
      ∀ move ∈ moves, move.source = move.target → launch.fds.exec.Open move.target := by
  refine forall₂_congr fun move member => imp_congr_right fun same => ?_
  rw [← openedFds_exec_open, ← same]
  simp only [Table.Open, Table.exec, forked_source fresh (opened move member)]

/-- The sequence of dup2 calls and an undisturbed close_all_fds bind the targets
exactly when the assignment came out and every target survives execve. -/
theorem bound_iff_assigned {initial final image : Table File} (fresh : launch.fds pipe.read = none ∧ launch.fds pipe.write = none)
    (opened : ∀ move ∈ moves, launch.fds.Open move.source)
    (forked : initial = (DefaultLauncher.forkedChild launch pipe errno).fds)
    (kept : ∀ move ∈ moves, image move.target = final.exec move.target) :
    Bound launch.fds image moves ↔
      Table.Assigned initial final moves ∧ ∀ move ∈ moves, final.exec.Open move.target := by
  have source (move : Table.Move) (member : move ∈ moves) :
      ∃ file, launch.fds.file move.source = some file ∧ initial.file move.source = some (.opened file) := by
    obtain ⟨file, entry⟩ := Table.open_iff_file.mp (opened move member)
    refine ⟨file, entry, ?_⟩
    have mapped := openedFds_file launch.fds move.source
    rw [entry] at mapped
    rw [forked]
    simp only [Table.file, forked_source fresh (opened move member)] at mapped ⊢
    exact mapped
  have imageFile (move : Table.Move) (member : move ∈ moves) (value : File) :
      image.file move.target = some value ↔ final.exec.Open move.target ∧ final.file move.target = some value := by
    rw [← Table.exec_file_iff]
    simp only [Table.file, kept move member]
  constructor
  · intro bound
    refine ⟨fun move member => ?_, fun move member => ?_⟩
    · obtain ⟨file, entry, reached⟩ := bound move member
      obtain ⟨other, same, initially⟩ := source move member
      rw [entry] at same
      cases same
      rw [initially]
      exact ((imageFile move member _).mp reached).2
    · obtain ⟨file, entry, reached⟩ := bound move member
      exact ((imageFile move member _).mp reached).1
  · rintro ⟨assigned, survives⟩ move member
    obtain ⟨file, entry, initially⟩ := source move member
    refine ⟨file, entry, (imageFile move member _).mpr ⟨survives move member, ?_⟩⟩
    rw [assigned move member, initially]

theorem image_survivors {result : ChildResult} {image : Table File} (executed : result.image = some image) :
    ∃ after, result.survivors = some after ∧ image = after.exec := by
  cases result with
  | replaced child =>
    cases executed
    exact ⟨child.fds, rfl, rfl⟩
  | _ => cases executed

section
variable {bindings : List Binding} {self : Launcher} {initial final after : Table File}

theorem childWhitelist_bindings (bound : launch.inits = bindings.map Binding.initializer)
    (silent : (DefaultLauncher.execSetup launch pipe).whitelisted = []) :
    DefaultLauncher.childWhitelist launch pipe self =
      self.fdWhitelist ++ (bindings.flatMap Binding.whitelisted ++ [pipe.write]) := by
  simp [DefaultLauncher.childWhitelist, Launch.setUp, Launcher.setUp, bound, Binding.onSetup_all, silent]

theorem whitelisted_number (ran : initial.dup2All (bindings.flatMap Binding.moves) = some final) {fd : Int}
    (member : fd ∈ bindings.flatMap Binding.whitelisted ++ [pipe.write]) : IsNumber fd := by
  rcases List.mem_append.mp member with member | member
  · obtain ⟨move, moved, rfl⟩ := Binding.whitelisted_target member
    exact Table.dup2All_targets ran move moved
  · rw [List.mem_singleton.mp member]
    exact pipe.write_number

/-- A target keeps its file through close_all_fds, unless close_range is misled by what
earlier launches left in the whitelist. -/
theorem survivors_target (bound : launch.inits = bindings.map Binding.initializer)
    (silent : (DefaultLauncher.execSetup launch pipe).whitelisted = [])
    (ran : initial.dup2All (bindings.flatMap Binding.moves) = some (DefaultLauncher.execSetup launch pipe).child.fds)
    (survived : (DefaultLauncher.childResult launch pipe self).survivors = some after)
    (ints : ∀ fd ∈ self.fdWhitelist, IsInt fd) (standard : ∀ fd ∈ [0, 1, 2], fd ∈ self.fdWhitelist)
    {move : Table.Move} (member : move ∈ bindings.flatMap Binding.moves) :
    after move.target = if Misled launch.os self.fdWhitelist then none
      else (DefaultLauncher.execSetup launch pipe).child.fds move.target := by
  have shape := @childWhitelist_bindings launch pipe bindings self bound silent
  -- its own targets are numbers, so only what earlier launches left can mislead close_range
  have misled : Misled launch.os (DefaultLauncher.childWhitelist launch pipe self) ↔
      Misled launch.os self.fdWhitelist := by
    rw [shape, Misled, Misled]
    refine and_congr_right fun _ => ⟨?_, ?_⟩
    · rintro ⟨fd, listed, low⟩
      rcases List.mem_append.mp listed with listed | listed
      · exact ⟨fd, listed, low⟩
      · have := (whitelisted_number ran listed).1
        omega
    · rintro ⟨fd, listed, low⟩
      exact ⟨fd, List.mem_append_left _ listed, low⟩
  have allInts : ∀ fd ∈ DefaultLauncher.childWhitelist launch pipe self, IsInt fd := by
    intro fd listed
    rw [shape] at listed
    rcases List.mem_append.mp listed with listed | listed
    · exact ints fd listed
    · have numbered := whitelisted_number ran listed
      exact ⟨le_trans (by decide) numbered.1, le_of_lt numbered.2⟩
  have listed : move.target ∈ DefaultLauncher.childWhitelist launch pipe self := by
    rw [shape]
    rcases List.mem_append.mp (Binding.target_whitelisted member) with own | own
    · exact List.mem_append_left _ (standard _ own)
    · exact List.mem_append_right _ (List.mem_append_left _ own)
  rw [survivors_apply survived allInts (Table.dup2All_targets ran move member), Table.retain_of_mem _ listed]
  simp only [misled]

end
end

/-- Bindings with distinct targets come out in the executed image exactly when no source
was overwritten before it was read, no descriptor bound to itself is close-on-exec, and
the launcher's whitelist does not mislead close_range. -/
theorem bindings_bound_iff (env : Nat) (earlier : List Launch) (launch : Launch) (self : Launcher) (pipe : Pipe)
    (bindings : List Binding) (returned : Returned) (child : ChildRun) (image : Table File)
    (reached : Transition.run (Kind.step .default) { env } earlier = some self)
    (called : (Kind.call .default launch self).2 = .ok returned) (ran : returned.child = some child)
    (executed : child.result.image = some image) (piped : launch.os.pipe = .ok pipe)
    (bound : launch.inits = bindings.map Binding.initializer)
    (distinct : ((bindings.flatMap Binding.moves).map Table.Move.target).Nodup)
    (opened : ∀ move ∈ bindings.flatMap Binding.moves, launch.fds.Open move.source)
    (fresh : launch.fds pipe.read = none ∧ launch.fds pipe.write = none)
    (ints : ∀ fd ∈ self.fdWhitelist, IsInt fd) :
    Bound launch.fds image (bindings.flatMap Binding.moves) ↔
      Table.Compatible launch.fds (bindings.flatMap Binding.moves) ∧
        (∀ move ∈ bindings.flatMap Binding.moves, move.source = move.target → launch.fds.exec.Open move.target) ∧
        (bindings.flatMap Binding.moves ≠ [] → ¬ Misled launch.os self.fdWhitelist) := by
  rw [call_child called ran piped] at executed
  obtain ⟨after, survived, rfl⟩ := image_survivors executed
  obtain ⟨hooked, -, -⟩ := setupAndExec_survivors survived
  have allMoves := @Binding.onExecSetup_all bindings (DefaultLauncher.forkedChild launch pipe launch.prepared)
    (by rw [← bound]; exact hooked)
  rw [← bound] at allMoves
  have duplicated : (DefaultLauncher.forkedChild launch pipe launch.prepared).fds.dup2All
      (bindings.flatMap Binding.moves) = some (DefaultLauncher.execSetup launch pipe).child.fds := allMoves.1
  have silent : (DefaultLauncher.execSetup launch pipe).whitelisted = [] := allMoves.2
  have listed : (buildArgv launch.executable launch.args self).1.fdWhitelist = self.fdWhitelist :=
    buildArgv_whitelist ..
  have standard : ∀ fd ∈ [0, 1, 2], fd ∈ self.fdWhitelist := by
    intro fd member
    rw [run_whitelist reached]
    exact List.mem_append_left _ member
  have target (move : Table.Move) (member : move ∈ bindings.flatMap Binding.moves) :=
    survivors_target bound silent duplicated survived (by rw [listed]; exact ints) (by rw [listed]; exact standard)
      member
  rw [listed] at target
  by_cases empty : bindings.flatMap Binding.moves = []
  · simp [empty, Bound, Table.Compatible]
  · by_cases misled : Misled launch.os self.fdWhitelist
    -- close_range has closed every target
    · have lost : ¬ Bound launch.fds after.exec (bindings.flatMap Binding.moves) := by
        intro assigned
        obtain ⟨move, member⟩ := List.exists_mem_of_ne_nil _ empty
        obtain ⟨file, -, found⟩ := assigned move member
        simp [Table.file, Table.exec, target move member, misled] at found
      simp [lost, empty, misled]
    -- every target survives, so the dup2 calls and the flags decide
    · have kept (move : Table.Move) (member : move ∈ bindings.flatMap Binding.moves) :
          after.exec move.target = (DefaultLauncher.execSetup launch pipe).child.fds.exec move.target := by
        simp only [Table.exec, target move member, if_neg misled]
      rw [bound_iff_assigned fresh opened rfl kept, Table.dup2All_assigned_iff distinct duplicated,
        Table.dup2All_exec_iff distinct duplicated, forked_compatible fresh opened, forked_exec_open fresh opened]
      simp [misled]

/-- The streams inherited, and the standard output as 7 besides. -/
def plainBindings : List Binding := [.stdio 0 1 2 fun _ => none, .fd 7 1 none]

/-- stdout and stderr swapped. -/
def swappedBindings : List Binding := [.stdio 0 2 1 fun _ => none]

/-- Descriptor 7, which is close-on-exec in the parent, passed as 7. -/
def selfBinding : List Binding := [.stdio 0 1 2 fun _ => none, .fd 7 7 none]

def bindingLaunch (bindings : List Binding) : Launch :=
  { launchOf (bindings.map Binding.initializer) (ordinaryOs none) with
    fds := Function.update (openBelow 3) 7 (some ⟨7, true⟩) }

theorem bindings_bound_plain : ∃ returned child image,
    (Kind.call .default (bindingLaunch plainBindings) { env := 9 }).2 = .ok returned ∧
      returned.child = some child ∧ child.result.image = some image ∧
      Bound (bindingLaunch plainBindings).fds image (plainBindings.flatMap Binding.moves) := by
  refine ⟨_, _, _, rfl, rfl, rfl, ?_⟩
  refine (bindings_bound_iff 9 [] (bindingLaunch plainBindings) { env := 9 } _ plainBindings _ _ _ rfl rfl rfl rfl
    rfl rfl (by decide) (by decide) ⟨rfl, rfl⟩ (by decide)).mpr ⟨?_, by decide, fun _ => by decide⟩
  unfold Table.Compatible
  decide

/-- Swapped streams end up in the same file, and a close-on-exec descriptor passed under
its own number is closed. -/
theorem bindings_not_bound :
    let unbound (bindings : List Binding) : Prop :=
      ((bindings.flatMap Binding.moves).map Table.Move.target).Nodup ∧
        (∀ move ∈ bindings.flatMap Binding.moves, (bindingLaunch bindings).fds.Open move.source) ∧
        ∃ returned child image, (Kind.call .default (bindingLaunch bindings) { env := 9 }).2 = .ok returned ∧
          returned.child = some child ∧ child.result.image = some image ∧
          ¬ Bound (bindingLaunch bindings).fds image (bindings.flatMap Binding.moves)
    unbound swappedBindings ∧ unbound selfBinding := by
  refine ⟨⟨by decide, by decide, _, _, _, rfl, rfl, rfl, fun bound => ?_⟩,
    ⟨by decide, by decide, _, _, _, rfl, rfl, rfl, fun bound => ?_⟩⟩
  · obtain ⟨file, source, target⟩ := bound ⟨1, 2⟩ (by decide)
    cases source
    exact absurd target (by decide)
  · obtain ⟨file, source, target⟩ := bound ⟨7, 7⟩ (by decide)
    cases source
    exact absurd target (by decide)

end BoostProcess.V2.Posix
