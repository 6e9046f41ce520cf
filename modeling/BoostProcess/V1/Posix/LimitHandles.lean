import BoostProcess.V1.Posix.PipeBinding

/-! limit_handles among the other initializers that touch descriptors in the child.

It closes what none of them uses. What they use is asked for in the parent while the initializers
are set up one after another, what they do is done in the child in the same order.
-/

set_option autoImplicit false

namespace BoostProcess.V1.Posix

open Descriptors
open BoostProcess.V2 (Errno)

variable {File : Type}

namespace Forked

/-- `if (::close(number) == -1) e.set_error(get_last_error(), "close() failed");` -/
def closeReported (child : Forked File) (number : Int) : Forked File :=
  if child.table.Open number then child.close number
  else { child with errors := child.errors ++ [(.EBADF, "close() failed")] }

end Forked

/-- `<p1, p2>` -/
inductive Outs where
  | out
  | err
  | both
  deriving DecidableEq, Repr

def Outs.targets : Outs → List Int
  | out => [stdoutFileno]
  | err => [stderrFileno]
  | both => [stdoutFileno, stderrFileno]

inductive Initializer where
  | bindFd (id fd : Int)
  | closeFd (fd : Int)
  | closeFds (fds : List Int)
  | closeIn
  | closeOut (outs : Outs)
  /-- file_in, and null_in with the number of `/dev/null` -/
  | fileIn (handle : Int)
  | fileOut (outs : Outs) (handle : Int)
  | pipe (initializer : PipeInitializer)
  | asyncIn (source sink : Int)
  | asyncOut (outs : Outs) (source sink : Int)
  | asyncOutFuture (outs : Outs) (source sink : Int)
  deriving DecidableEq, Repr

/-- `for (auto & fd_ : fds_)`, up to the first that is not open. -/
def closeFds (child : Forked File) : List Int → Forked File
  | [] => child
  | fd :: rest => if child.table.Open fd then closeFds (child.close fd) rest else child.closeReported fd

/-- `apply_out_handles`, which returns -1 at the first dup2 that fails. -/
def applyOutHandles (child : Forked File) (handle : Int) : List Int → Forked File
  | [] => child
  | target :: rest =>
    match child.table.dup2 handle target with
    | some table => applyOutHandles { child with table := table } handle rest
    | none => child.dup2 handle target

namespace Initializer

def onExecSetup : Initializer → Forked File → Forked File
  | bindFd id fd, child => child.dup2 fd id
  | closeFd fd, child => child.closeReported fd
  | closeFds fds, child => Posix.closeFds child fds
  | closeIn, child => child.closeReported stdinFileno
  | closeOut outs, child => outs.targets.foldl Forked.closeReported child
  | fileIn handle, child => child.dup2 handle stdinFileno
  | fileOut outs handle, child => child.dup2All handle outs.targets
  | pipe initializer, child => initializer.onExecSetup child
  | asyncIn source sink, child => Posix.onExecSetup source sink [stdinFileno] [stdinFileno] child
  | asyncOut outs source sink, child | asyncOutFuture outs source sink, child =>
    ((applyOutHandles child sink outs.targets).close sink).close source

/-- What get_used_handles of the executor gets from it. close_out and async_out_future are not asked,
and an asynchronous initializer has no pipe before it is set up. -/
def usedHandles (setUp : Bool) : Initializer → List Int
  | bindFd id fd => [id, fd]
  | closeFd fd => [fd]
  | closeFds fds => fds
  | closeIn => [stdinFileno]
  | fileIn handle => [stdinFileno, handle]
  | fileOut outs handle => handle :: outs.targets
  | pipe initializer => initializer.bound :: initializer.opposite :: initializer.targets
  | asyncIn source sink => if setUp then [stdinFileno, source, sink] else [stdinFileno]
  | asyncOut outs source sink => if setUp then source :: sink :: outs.targets else outs.targets
  | closeOut _ | asyncOutFuture .. => []

end Initializer

def runAll (inits : List Initializer) (child : Forked File) : Forked File :=
  inits.foldl (fun child init => init.onExecSetup child) child

/-- The numbers that limit_handles spares, which has its place between the others. -/
def getUsedHandles (pipeSink : Option Int) (before after : List Initializer) : List Int :=
  pipeSink.toList ++ before.flatMap (Initializer.usedHandles true) ++ after.flatMap (Initializer.usedHandles false)

/-- The loop of limit_handles over the entries of `/dev/fd`, without that of the directory itself. -/
def limitLoop (used : List Int) (child : Forked File) : List Int → Forked File
  | [] => child
  | entry :: rest =>
    if entry ∈ used then limitLoop used child rest
    else if child.table.Open entry then limitLoop used (child.close entry) rest
    else child.closeReported entry

/-- `limit_handles_::on_exec_setup`; there are no entries if opendir fails. -/
def limitHandles (used : List Int) (entries : Except Errno (List Int)) (child : Forked File) : Forked File :=
  match entries with
  | .error err => { child with errors := child.errors ++ [(err, "opendir(\"/dev/fd\")")] }
  | .ok entries => limitLoop used child entries

/-! ## The calls behind an initializer -/

inductive Call where
  | dup2 (source target : Int)
  /-- It is an error if the number is not open. -/
  | close (number : Int)
  | closeQuietly (number : Int)

namespace Call

def apply (table : Table File) : Call → Option (Table File)
  | dup2 source target => table.dup2 source target
  | close number => if table.Open number then some (table.close number) else none
  | closeQuietly number => some (table.close number)

/-- The number that has to be open. -/
def needs : Call → List Int
  | dup2 source _ => [source]
  | close number => [number]
  | closeQuietly _ => []

def opens : Call → List Int
  | dup2 _ target => [target]
  | close _ | closeQuietly _ => []

end Call

def applyAll (table : Table File) (calls : List Call) : Option (Table File) :=
  calls.foldlM Call.apply table

/-- Every number that has to be open is one of `live`, or was opened by then. -/
def Served (live : List Int) : List Call → Prop
  | [] => True
  | call :: rest => (∀ number ∈ call.needs, number ∈ live) ∧ Served (call.opens ++ live) rest

instance decidableServed : (live : List Int) → (calls : List Call) → Decidable (Served live calls)
  | _, [] => inferInstanceAs (Decidable True)
  | live, call :: rest =>
    have := decidableServed (call.opens ++ live) rest
    inferInstanceAs (Decidable (_ ∧ _))

/-- What is live after the calls. -/
def opened (live : List Int) (calls : List Call) : List Int := calls.foldl (fun live call => call.opens ++ live) live

section
variable {table next final : Table File} {live : List Int} {calls : List Call} {number : Int}

theorem retain_close (table : Table File) (live : List Int) (number : Int) :
    (table.close number).retain live = (table.retain live).close number := by
  funext other
  unfold Table.retain Table.close
  by_cases same : other = number
  · subst same
    simp
  · simp [same]

theorem apply_retain {call : Call} (taken : call.apply table = some next) :
    call.apply (table.retain live) =
      if ∀ number ∈ call.needs, number ∈ live then some (next.retain (call.opens ++ live)) else none := by
  cases call with
  | closeQuietly number =>
    cases taken
    rw [if_pos nofun]
    exact congrArg some (retain_close table live number).symm
  | close number =>
    obtain ⟨here, ⟨⟩⟩ := Option.ite_none_right_eq_some.mp taken
    simp only [Call.apply, Call.needs, List.mem_singleton, forall_eq, Table.open_retain_iff, here, true_and]
    split
    · exact congrArg some (retain_close table live number).symm
    · rfl
  | dup2 source target =>
    obtain ⟨descriptor, entry, numbered, rfl⟩ := Table.dup2_inv taken
    simp only [Call.apply, Call.needs, List.mem_singleton, forall_eq, Table.dup2]
    by_cases spared : source ∈ live
    · rw [Table.retain_of_mem table spared, entry, if_pos spared]
      dsimp only
      rw [if_pos numbered]
      by_cases same : source = target
      · rw [if_pos same, if_pos same]
        congr 1
        funext other
        unfold Table.retain
        simp only [Call.opens, List.singleton_append, List.mem_cons]
        by_cases here : other = target
        · simp [here, same ▸ spared]
        · simp [here]
      · rw [if_neg same, if_neg same]
        congr 1
        funext other
        unfold Table.retain
        simp only [Call.opens, List.singleton_append, List.mem_cons, Function.update_apply]
        by_cases here : other = target
        · simp [here]
        · simp [here]
    · have gone : table.retain live source = none := by
        unfold Table.retain
        rw [if_neg spared]
      rw [gone, if_neg spared]

/-- Calls that succeed on a table succeed on a part of it exactly if they are served, with the same effect. -/
theorem applyAll_retain (ran : applyAll table calls = some final) :
    applyAll (table.retain live) calls = if Served live calls then some (final.retain (opened live calls)) else none := by
  induction calls generalizing table live with
  | nil =>
    cases ran
    exact (if_pos trivial).symm
  | cons call rest ih =>
    obtain ⟨next, taken, ran⟩ := Option.bind_eq_some_iff.mp ran
    have first := @apply_retain File table next live call taken
    change (call.apply (table.retain live)).bind (fun next => applyAll next rest) = _
    rw [first]
    by_cases served : ∀ number ∈ call.needs, number ∈ live
    · rw [if_pos served]
      refine (ih ran).trans ?_
      have same : Served live (call :: rest) ↔ Served (call.opens ++ live) rest := and_iff_right served
      simp only [same]
      rfl
    · rw [if_neg served]
      exact (if_neg fun both => served both.1).symm

theorem mem_opened : number ∈ opened live calls ↔ number ∈ live ∨ ∃ call ∈ calls, number ∈ call.opens := by
  unfold opened
  induction calls generalizing live with
  | nil => simp
  | cons call rest ih =>
    rw [List.foldl_cons, ih, List.mem_append]
    simp only [List.mem_cons, exists_eq_or_imp]
    tauto

end

/-! ## What an initializer calls -/

def PipeInitializer.spared : PipeInitializer → List Int
  | pipeOut1 _ | pipeOut2 _ => [stdoutFileno]
  | pipeOut12 _ => [stdoutFileno, stderrFileno]
  | pipeIn _ => [stdinFileno]

theorem PipeInitializer.onExecSetup_eq (initializer : PipeInitializer) (child : Forked File) :
    initializer.onExecSetup child =
      Posix.onExecSetup initializer.bound initializer.opposite initializer.targets initializer.spared child := by
  cases initializer <;> rfl

/-- The calls of a handler that binds one end of a pipe and closes both. -/
def bindCalls (bound opposite : Int) (targets spared : List Int) : List Call :=
  targets.map (.dup2 bound) ++ ((if bound ∈ spared then [] else [.closeQuietly bound]) ++ [.closeQuietly opposite])

/-- The calls of an initializer, as long as none of them fails. -/
def Initializer.calls : Initializer → List Call
  | bindFd id fd => [.dup2 fd id]
  | closeFd fd => [.close fd]
  | closeFds fds => fds.map .close
  | closeIn => [.close stdinFileno]
  | closeOut outs => outs.targets.map .close
  | fileIn handle => [.dup2 handle stdinFileno]
  | fileOut outs handle => outs.targets.map (.dup2 handle)
  | pipe initializer => bindCalls initializer.bound initializer.opposite initializer.targets initializer.spared
  | asyncIn source sink => bindCalls source sink [stdinFileno] [stdinFileno]
  | asyncOut outs source sink | asyncOutFuture outs source sink => bindCalls sink source outs.targets []

/-- The child makes the calls if none of them fails; otherwise it reports an error. -/
def Makes (step : Forked File → Forked File) (calls : List Call) : Prop :=
  ∀ child, match applyAll child.table calls with
    | some table => step child = { child with table := table }
    | none => child.errors.length < (step child).errors.length

namespace Makes

variable {first second : Forked File → Forked File} {before after : List Call} {child : Forked File}

theorem of_some {table : Table File} (makes : Makes first before) (ran : applyAll child.table before = some table) :
    first child = { child with table := table } := by
  have here := makes child
  rwa [ran] at here

theorem of_none (makes : Makes first before) (failed : applyAll child.table before = none) :
    child.errors.length < (first child).errors.length := by
  have here := makes child
  rwa [failed] at here

theorem errors_le (makes : Makes first before) (child : Forked File) : child.errors.length ≤ (first child).errors.length := by
  cases ran : applyAll child.table before with
  | none => exact Nat.le_of_lt (makes.of_none ran)
  | some table => exact Nat.le_of_eq (congrArg (·.errors.length) (makes.of_some ran)).symm

theorem append (one : Makes first before) (two : Makes second after) :
    Makes (fun child => second (first child)) (before ++ after) := by
  intro child
  unfold applyAll
  rw [List.foldlM_append]
  change match (applyAll child.table before).bind fun table => applyAll table after with
    | some table => second (first child) = { child with table := table }
    | none => child.errors.length < (second (first child)).errors.length
  cases ran : applyAll child.table before with
  | none => exact Nat.lt_of_lt_of_le (one.of_none ran) (two.errors_le _)
  | some table =>
    rw [one.of_some ran]
    exact two { child with table := table }

theorem id : Makes (fun child : Forked File => child) [] := fun _ => rfl

theorem dup2 (source target : Int) : Makes (fun child : Forked File => child.dup2 source target) [.dup2 source target] := by
  intro child
  change match (child.table.dup2 source target).bind some with
    | some table => child.dup2 source target = { child with table := table }
    | none => child.errors.length < (child.dup2 source target).errors.length
  unfold Forked.dup2
  cases child.table.dup2 source target with
  | none => simp
  | some table => rfl

theorem closeReported (number : Int) : Makes (fun child : Forked File => child.closeReported number) [.close number] := by
  intro child
  change match (if child.table.Open number then some (child.table.close number) else none).bind some with
    | some table => child.closeReported number = { child with table := table }
    | none => child.errors.length < (child.closeReported number).errors.length
  unfold Forked.closeReported
  by_cases here : child.table.Open number
  · rw [if_pos here, if_pos here]
    rfl
  · rw [if_neg here, if_neg here]
    simp

theorem close (number : Int) : Makes (fun child : Forked File => child.close number) [.closeQuietly number] := fun _ => rfl

theorem closeUnless (number : Int) (spared : List Int) : Makes (fun child : Forked File => child.closeUnless number spared)
    (if number ∈ spared then [] else [.closeQuietly number]) := by
  unfold Forked.closeUnless
  split
  · exact id
  · exact close number

theorem fold {step : Forked File → Int → Forked File} {call : Int → Call} (makes : ∀ number, Makes (step · number) [call number])
    (numbers : List Int) : Makes (fun child => numbers.foldl step child) (numbers.map call) := by
  induction numbers with
  | nil => exact id
  | cons number rest ih => exact (makes number).append ih

theorem onExecSetup (bound opposite : Int) (targets spared : List Int) :
    Makes (fun child : Forked File => Posix.onExecSetup bound opposite targets spared child)
      (bindCalls bound opposite targets spared) :=
  (fold (dup2 bound) targets).append ((closeUnless bound spared).append (close opposite))

/-- Nothing is closed behind a number that is not open. -/
theorem closeFds (fds : List Int) : Makes (fun child : Forked File => Posix.closeFds child fds) (fds.map .close) := by
  induction fds with
  | nil => exact id
  | cons fd rest ih =>
    intro child
    change match (if child.table.Open fd then some (child.table.close fd) else none).bind (applyAll · (rest.map .close)) with
      | some table => Posix.closeFds child (fd :: rest) = { child with table := table }
      | none => child.errors.length < (Posix.closeFds child (fd :: rest)).errors.length
    unfold Posix.closeFds Forked.closeReported
    by_cases here : child.table.Open fd
    · rw [if_pos here, if_pos here]
      exact ih (child.close fd)
    · rw [if_neg here, if_neg here, if_neg here]
      simp

theorem applyOutHandles (handle : Int) (targets : List Int) :
    Makes (fun child : Forked File => Posix.applyOutHandles child handle targets) (targets.map (.dup2 handle)) := by
  induction targets with
  | nil => exact id
  | cons target rest ih =>
    intro child
    change match (child.table.dup2 handle target).bind (applyAll · (rest.map (.dup2 handle))) with
      | some table => Posix.applyOutHandles child handle (target :: rest) = { child with table := table }
      | none => child.errors.length < (Posix.applyOutHandles child handle (target :: rest)).errors.length
    unfold Posix.applyOutHandles Forked.dup2
    cases child.table.dup2 handle target with
    | none => simp
    | some table => exact ih { child with table := table }

theorem initializer (init : Initializer) : Makes (fun child : Forked File => init.onExecSetup child) init.calls := by
  cases init with
  | bindFd id fd => exact dup2 fd id
  | closeFd fd => exact closeReported fd
  | closeFds fds => exact closeFds fds
  | closeIn => exact closeReported stdinFileno
  | closeOut outs => exact fold closeReported outs.targets
  | fileIn handle => exact dup2 handle stdinFileno
  | fileOut outs handle => exact fold (dup2 handle) outs.targets
  | pipe initializer =>
    have same : (fun child : Forked File => initializer.onExecSetup child) = _ := funext initializer.onExecSetup_eq
    have makes := @onExecSetup File initializer.bound initializer.opposite initializer.targets initializer.spared
    rw [← same] at makes
    exact makes
  | asyncIn source sink => exact onExecSetup source sink [stdinFileno] [stdinFileno]
  | asyncOut outs source sink | asyncOutFuture outs source sink =>
    exact (applyOutHandles sink outs.targets).append ((close sink).append (close source))

theorem runAll (inits : List Initializer) :
    Makes (fun child : Forked File => Posix.runAll inits child) (inits.flatMap Initializer.calls) := by
  induction inits with
  | nil => exact id
  | cons init rest ih => exact (initializer init).append ih

/-- No error is reported exactly if all calls succeed. -/
theorem silent_iff {table : Table File} (makes : Makes first before) (silent : child.errors = []) :
    (first child).errors = [] ∧ (first child).table = table ↔ applyAll child.table before = some table := by
  cases ran : applyAll child.table before with
  | none =>
    have grown := makes.of_none ran
    refine iff_of_false ?_ nofun
    rintro ⟨none, -⟩
    rw [none] at grown
    exact Nat.not_lt_zero _ grown
  | some final =>
    rw [makes.of_some ran, Option.some_inj]
    exact and_iff_right silent

end Makes

/-! ## limit_handles -/

variable {child : Forked File} {used entries : List Int} {number : Int}

theorem limitLoop_eq (listed : ∀ entry ∈ entries, child.table.Open entry) (distinct : entries.Nodup) :
    limitLoop used child entries =
      { child with table := fun number => if number ∈ entries ∧ number ∉ used then none else child.table number } := by
  induction entries generalizing child with
  | nil => simp [limitLoop]
  | cons entry rest ih =>
    obtain ⟨fresh, distinct⟩ := List.nodup_cons.mp distinct
    unfold limitLoop
    by_cases spared : entry ∈ used
    · rw [if_pos spared, ih (fun other member => listed other (List.mem_cons_of_mem _ member)) distinct]
      congr 1
      funext number
      by_cases same : number = entry
      · simp [same, spared]
      · simp [same]
    · rw [if_neg spared, if_pos (listed entry List.mem_cons_self)]
      have still : ∀ other ∈ rest, (child.close entry).table.Open other := by
        intro other member
        have distinct : other ≠ entry := by
          rintro rfl
          exact fresh member
        have same : (child.close entry).table other = child.table other := Table.close_of_ne child.table distinct
        unfold Table.Open
        rw [same]
        exact listed other (List.mem_cons_of_mem _ member)
      rw [ih still distinct]
      unfold Forked.close Table.close
      congr 1
      funext number
      by_cases same : number = entry
      · simp [same, spared]
      · simp [same]

/-- What `/dev/fd` lists. -/
def Lists (entries : List Int) (table : Table File) : Prop := entries.Nodup ∧ ∀ number, number ∈ entries ↔ table.Open number

theorem limitHandles_eq (lists : Lists entries child.table) :
    limitHandles used (.ok entries) child = { child with table := child.table.retain used } := by
  have listed : ∀ entry ∈ entries, child.table.Open entry := fun entry member => (lists.2 entry).mp member
  refine (limitLoop_eq listed lists.1).trans ?_
  congr 1
  funext number
  unfold Table.retain
  by_cases spared : number ∈ used
  · simp [spared]
  · by_cases here : number ∈ entries
    · simp [spared, here]
    · have closed := mt (lists.2 number).mpr here
      unfold Table.Open at closed
      rw [Bool.not_eq_true, Option.isSome_eq_false_iff, Option.isNone_iff_eq_none] at closed
      simp [spared, here, closed]

/-! ## What the child has with and without limit_handles -/

/-- The child with limit_handles between the other initializers. -/
def limited (pipeSink : Option Int) (before after : List Initializer) (entries : List Int) (child : Forked File) : Forked File :=
  runAll after (limitHandles (getUsedHandles pipeSink before after) (.ok entries) (runAll before child))

namespace Initializer

def targets : Initializer → List Int
  | bindFd id _ => [id]
  | closeFd _ | closeFds _ | closeIn | closeOut _ => []
  | fileIn _ | asyncIn .. => [stdinFileno]
  | fileOut outs _ | asyncOut outs .. | asyncOutFuture outs .. => outs.targets
  | pipe initializer => initializer.targets

/-- The end of a pipe that on_setup makes. -/
def asyncEnd : Initializer → Option Int
  | asyncIn source _ => some source
  | asyncOut _ _ sink | asyncOutFuture _ _ sink => some sink
  | _ => none

def IsFuture : Initializer → Prop
  | asyncOutFuture .. => True
  | _ => False

def IsCloseOut : Initializer → Prop
  | closeOut _ => True
  | _ => False

variable {init : Initializer} {setUp : Bool} {call : Call}

/-- Only a future is not asked for the numbers it binds. -/
theorem targets_used (asked : ¬ init.IsFuture) (member : number ∈ init.targets) : number ∈ init.usedHandles setUp := by
  cases init with
  | bindFd id fd =>
    rw [List.mem_singleton.mp member]
    exact List.mem_cons_self
  | fileIn handle =>
    rw [List.mem_singleton.mp member]
    exact List.mem_cons_self
  | fileOut outs handle => exact List.mem_cons_of_mem _ member
  | pipe initializer => exact List.mem_cons_of_mem _ (List.mem_cons_of_mem _ member)
  | asyncIn source sink =>
    rw [List.mem_singleton.mp member]
    cases setUp <;> exact List.mem_cons_self
  | asyncOut outs source sink =>
    cases setUp with
    | false => exact member
    | true => exact List.mem_cons_of_mem _ (List.mem_cons_of_mem _ member)
  | asyncOutFuture => exact absurd trivial asked
  | closeFd | closeFds | closeIn | closeOut => cases member

theorem needs_bindCalls {bound opposite : Int} {targets spared : List Int}
    (member : call ∈ bindCalls bound opposite targets spared)
    (needed : number ∈ call.needs) : number = bound := by
  unfold bindCalls at member
  rw [List.mem_append, List.mem_append] at member
  rcases member with dupped | closed | closed
  · obtain ⟨target, -, rfl⟩ := List.mem_map.mp dupped
    exact List.mem_singleton.mp needed
  · split at closed
    · cases closed
    · rw [List.mem_singleton.mp closed] at needed
      cases needed
  · rw [List.mem_singleton.mp closed] at needed
    cases needed

/-- What has to be open is spared, unless that is the pipe of an asynchronous initializer or a stream to be closed. -/
theorem needs_used (known : init.asyncEnd = none) (asked : ¬ init.IsCloseOut) (member : call ∈ init.calls)
    (needed : number ∈ call.needs) : number ∈ init.usedHandles setUp := by
  cases init with
  | bindFd id fd =>
    rw [List.mem_singleton.mp member] at needed
    exact List.mem_cons_of_mem _ needed
  | closeFd fd =>
    rw [List.mem_singleton.mp member] at needed
    exact needed
  | closeFds fds =>
    obtain ⟨fd, present, rfl⟩ := List.mem_map.mp member
    rw [List.mem_singleton.mp needed]
    exact present
  | closeIn =>
    rw [List.mem_singleton.mp member] at needed
    exact needed
  | closeOut => exact absurd trivial asked
  | fileIn handle =>
    rw [List.mem_singleton.mp member] at needed
    exact List.mem_cons_of_mem _ needed
  | fileOut outs handle =>
    obtain ⟨target, -, rfl⟩ := List.mem_map.mp member
    rw [List.mem_singleton.mp needed]
    exact List.mem_cons_self
  | pipe initializer =>
    rw [needs_bindCalls member needed]
    exact List.mem_cons_self
  | asyncIn | asyncOut | asyncOutFuture => cases known

/-- The first call of an asynchronous initializer needs its end of the pipe. -/
theorem asyncEnd_needed (has : init.asyncEnd = some number) : ∃ call ∈ init.calls, number ∈ call.needs := by
  have first (outs : Outs) (sink source : Int) : ∃ call ∈ bindCalls sink source outs.targets [], sink ∈ call.needs := by
    cases outs with
    | out | both => exact ⟨.dup2 sink stdoutFileno, List.mem_cons_self, List.mem_cons_self⟩
    | err => exact ⟨.dup2 sink stderrFileno, List.mem_cons_self, List.mem_cons_self⟩
  cases init with
  | asyncIn source sink =>
    cases has
    exact ⟨_, List.mem_cons_self, List.mem_cons_self⟩
  | asyncOut outs source | asyncOutFuture outs source =>
    cases has
    exact first outs number source
  | bindFd | closeFd | closeFds | closeIn | closeOut | fileIn | fileOut | pipe => cases has

end Initializer

section
variable {live : List Int} {calls : List Call}

theorem served_of_subset (within : ∀ call ∈ calls, ∀ number ∈ call.needs, number ∈ live) : Served live calls := by
  induction calls generalizing live with
  | nil => trivial
  | cons call rest ih =>
    refine ⟨within call List.mem_cons_self, ih fun other member number needed => ?_⟩
    exact List.mem_append_right _ (within other (List.mem_cons_of_mem call member) number needed)

theorem needs_opened (served : Served live calls) {call : Call} (member : call ∈ calls) (needed : number ∈ call.needs) :
    number ∈ opened live calls := by
  induction calls generalizing live with
  | nil => cases member
  | cons first rest ih =>
    change number ∈ opened (first.opens ++ live) rest
    cases List.mem_cons.mp member with
    | inl same => exact mem_opened.mpr (.inl (List.mem_append_right _ (served.1 number (same ▸ needed))))
    | inr later => exact ih served.2 later

end

theorem mem_used (pipeSink : Option Int) (before after : List Initializer) : number ∈ getUsedHandles pipeSink before after ↔
    number ∈ pipeSink ∨ (∃ init ∈ before, number ∈ init.usedHandles true) ∨ ∃ init ∈ after, number ∈ init.usedHandles false := by
  unfold getUsedHandles
  rw [List.mem_append, List.mem_append, List.mem_flatMap, List.mem_flatMap, Option.mem_toList, or_assoc]
  rfl

/-- Where the launch works without limit_handles, it reports no error with it exactly if what each later
initializer needs is used or bound by then. The child then has what it would have, as far as that is used
or bound; in particular whatever an initializer binds that is asked, and the pipe for errors. -/
theorem limited_iff (pipeSink : Option Int) (before after : List Initializer) (entries : List Int) (child : Forked File)
    (plain : (runAll (before ++ after) child).errors = [])
    (lists : Lists entries (runAll before child).table) :
    ((limited pipeSink before after entries child).errors = [] ↔
        Served (getUsedHandles pipeSink before after) (after.flatMap Initializer.calls)) ∧
      (Served (getUsedHandles pipeSink before after) (after.flatMap Initializer.calls) →
        (limited pipeSink before after entries child).table =
            (runAll (before ++ after) child).table.retain
              (opened (getUsedHandles pipeSink before after) (after.flatMap Initializer.calls)) ∧
          (∀ init ∈ before ++ after, ¬ init.IsFuture → ∀ target ∈ init.targets,
            (limited pipeSink before after entries child).table target = (runAll (before ++ after) child).table target) ∧
          ∀ sink, pipeSink = some sink →
            (limited pipeSink before after entries child).table sink = (runAll (before ++ after) child).table sink) := by
  have split : runAll (before ++ after) child = runAll after (runAll before child) := List.foldl_append ..
  have front : (runAll before child).errors = [] := by
    have grown := (Makes.runAll after).errors_le (runAll before child)
    rw [← split, plain] at grown
    exact List.eq_nil_of_length_eq_zero (Nat.le_zero.mp grown)
  have ran :
      applyAll (runAll before child).table (after.flatMap Initializer.calls) = some (runAll (before ++ after) child).table := by
    apply ((Makes.runAll after).silent_iff front).mp
    rw [split] at plain ⊢
    exact ⟨plain, rfl⟩
  have part := @applyAll_retain File _ _ (getUsedHandles pipeSink before after) _ ran
  unfold limited
  rw [limitHandles_eq lists]
  have makes := @Makes.runAll File after
  constructor
  · constructor
    · intro fine
      by_contra unserved
      rw [if_neg unserved] at part
      have grown := @Makes.of_none File _ _
        ⟨(runAll before child).table.retain (getUsedHandles pipeSink before after), (runAll before child).errors⟩ makes part
      exact Nat.not_lt_zero _ (Nat.lt_of_lt_of_eq grown (congrArg List.length fine))
    · intro served
      rw [if_pos served] at part
      rw [makes.of_some part]
      exact front
  · intro served
    rw [if_pos served] at part
    rw [makes.of_some part]
    refine ⟨rfl, fun init member asked target bound => ?_, fun sink given => ?_⟩
    · apply Table.retain_of_mem
      refine mem_opened.mpr (.inl ((mem_used pipeSink before after).mpr (.inr ?_)))
      cases List.mem_append.mp member with
      | inl front => exact .inl ⟨init, front, Initializer.targets_used asked bound⟩
      | inr later => exact .inr ⟨init, later, Initializer.targets_used asked bound⟩
    · apply Table.retain_of_mem
      exact mem_opened.mpr (.inl ((mem_used pipeSink before after).mpr (.inl given)))

/-- Behind limit_handles no asynchronous initializer works, if nothing else uses the number of its pipe,
and everything else does, except that close_out finds its stream closed. -/
theorem limited_iff_not_async (pipeSink : Option Int) (before after : List Initializer) (entries : List Int) (child : Forked File)
    (plain : (runAll (before ++ after) child).errors = [])
    (lists : Lists entries (runAll before child).table)
    (fresh : ∀ init ∈ after, ∀ number, init.asyncEnd = some number →
      number ∉ opened (getUsedHandles pipeSink before after) (after.flatMap Initializer.calls))
    (asked : ∀ init ∈ after, ¬ init.IsCloseOut) :
    (limited pipeSink before after entries child).errors = [] ↔ ∀ init ∈ after, init.asyncEnd = none := by
  rw [(limited_iff pipeSink before after entries child plain lists).1]
  constructor
  · intro served init member
    rw [Option.eq_none_iff_forall_ne_some]
    intro number has
    obtain ⟨call, present, needed⟩ := Initializer.asyncEnd_needed has
    exact fresh init member number has (needs_opened served (List.mem_flatMap.mpr ⟨init, member, present⟩) needed)
  · intro known
    apply served_of_subset
    intro call present number needed
    obtain ⟨init, member, here⟩ := List.mem_flatMap.mp present
    apply (mem_used pipeSink before after).mpr
    exact .inr (.inr ⟨init, member, Initializer.needs_used (known init member) (asked init member) here needed⟩)

/-- Before the launch: 0 to 2, the pipe for errors with the sink 4, a file 5 and an asynchronous pipe of 6 and 7. -/
def parent : Forked String where
  table number :=
    if number = 4 then some ⟨"errors", true⟩
    else if 0 ≤ number ∧ number < 8 ∧ number ≠ 3 then some ⟨"file", false⟩
    else none
  errors := []

theorem lists_parent : Lists [0, 1, 2, 4, 5, 6, 7] parent.table := by
  refine ⟨by decide, fun number => ?_⟩
  unfold Table.Open parent
  simp only [List.mem_cons, List.not_mem_nil, or_false]
  split
  · rename_i same
    simp [same]
  · split
    · rename_i distinct inside
      simp only [Option.isSome_some, iff_true]
      omega
    · rename_i distinct outside
      simp only [Option.isSome_none, Bool.false_eq_true, iff_false]
      omega

theorem limited_iff_parent : (limited (some 4) [] [.fileOut .both 5] [0, 1, 2, 4, 5, 6, 7] parent).errors = [] :=
  ((limited_iff (some 4) [] [.fileOut .both 5] [0, 1, 2, 4, 5, 6, 7] parent rfl lists_parent).1).mpr (by decide)

theorem limited_iff_not_async_parent : (limited (some 4) [] [.asyncIn 6 7] [0, 1, 2, 4, 5, 6, 7] parent).errors ≠ [] := by
  have failed := (limited_iff_not_async (some 4) [] [.asyncIn 6 7] [0, 1, 2, 4, 5, 6, 7] parent rfl lists_parent (by decide)
    (fun init member => by cases List.mem_singleton.mp member; exact not_false)).mp
  intro silent
  exact absurd (failed silent _ List.mem_cons_self) nofun

/-- What a future binds does not outlast limit_handles. -/
example : (runAll [.asyncOutFuture .out 6 7] parent).table 1 ≠ none ∧
    (limited (some 4) [.asyncOutFuture .out 6 7] [] [0, 1, 2, 4, 5] parent).table 1 = none := by
  decide

end BoostProcess.V1.Posix
