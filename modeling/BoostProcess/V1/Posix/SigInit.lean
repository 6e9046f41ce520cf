import BoostProcess.Library.Transition
import Mathlib.Data.List.Basic

/-! The property sig: what launches do to SIGCHLD, in this process and for the programs they start.

It sets the disposition in the child and resets it in the parent. A forked child has copies of the
initializers, one of vfork shares them. The handler that a sigchld_service needs is installed once.
-/

set_option autoImplicit false

namespace BoostProcess.V1.Posix.SigInit

open Transition

/-- `sighandler_t` -/
inductive Disposition where
  | dfl
  | ign
  /-- That of the signal_set of the sigchld_service. -/
  | service
  | handler (number : Nat)
  deriving DecidableEq, Repr

/-- `sig_init_` -/
structure Init where
  handler : Disposition
  old : Disposition := .dfl
  reset : Bool := false
  deriving DecidableEq, Repr

/-- `_old = ::signal(SIGCHLD, _handler);` -/
def Init.onExecSetup (init : Init) (disposition : Disposition) : Disposition × Init :=
  (init.handler, { init with old := disposition })

/-- on_success and on_error -/
def Init.restore (init : Init) (disposition : Disposition) : Disposition × Init :=
  if init.reset then (disposition, init) else (init.old, { init with reset := true })

/-- One handler of each initializer, one after another. -/
def forEach (call : Init → Disposition → Disposition × Init) : Disposition → List Init → Disposition × List Init
  | disposition, [] => (disposition, [])
  | disposition, init :: rest =>
    let (next, changed) := call init disposition
    let (final, others) := forEach call next rest
    (final, changed :: others)

/-- How far a launch gets. -/
inductive Course where
  /-- It throws, or fails, before a handler is called in the parent. -/
  | silent
  /-- on_error without a child. -/
  | refused
  /-- A child runs on_exec_setup, the parent on_success or on_error or both; `executed` if there is a program. -/
  | started (executed : Bool)
  deriving DecidableEq, Repr

structure World where
  disposition : Disposition
  /-- Children that have exited and of which nobody was told. -/
  exited : List Nat := []
  notified : List Nat := []
  /-- What the programs started with. -/
  programs : List Disposition := []
  deriving DecidableEq, Repr

/-- execve keeps that a signal is ignored, and nothing else. -/
def Disposition.exec : Disposition → Disposition
  | ign => ign
  | _ => dfl

/-- The parent behind on_success or on_error; a second handler finds everything reset. -/
def restoreAll (disposition : Disposition) (inits : List Init) : Disposition := (forEach Init.restore disposition inits).1

def launch (world : World) (vfork : Bool) (course : Course) (handlers : List Disposition) : World :=
  let inits := handlers.map fun handler => { handler := handler }
  match course with
  | .silent => world
  | .refused => { world with disposition := restoreAll world.disposition inits }
  | .started executed =>
    let child := forEach Init.onExecSetup world.disposition inits
    { world with
      disposition := restoreAll world.disposition (if vfork then child.2 else inits)
      programs := if executed then child.1.exec :: world.programs else world.programs }

inductive Op where
  | launch (vfork : Bool) (course : Course) (handlers : List Disposition)
  /-- A child exits for which an on_exit handler waits; a signal that comes makes the service look at all. -/
  | exit (pid : Nat)
  deriving DecidableEq, Repr

def step (world : World) : Op → Option World
  | .launch vfork course handlers => some (launch world vfork course handlers)
  | .exit pid =>
    some (if world.disposition = .service then
      { world with notified := pid :: world.exited ++ world.notified, exited := [] }
    else { world with exited := pid :: world.exited })

/-- The disposition that the last of several properties finds. -/
def found (disposition : Disposition) (handlers : List Disposition) : Disposition := handlers.dropLast.getLast?.getD disposition

/-- A launch that gets as far as a handler in the parent has no property sig, or the child is one of vfork and
the last of them finds the disposition of the parent. -/
def Gentle (world : World) : Op → Prop
  | .exit _ | .launch _ .silent _ => True
  | .launch _ .refused handlers => handlers = [] ∨ world.disposition = .dfl
  | .launch vfork (.started _) handlers =>
    handlers = [] ∨ (if vfork then found world.disposition handlers = world.disposition else world.disposition = .dfl)

/-- The program does not find SIGCHLD ignored. -/
def Mindful (world : World) : Op → Prop
  | .launch _ (.started true) handlers => handlers.getLast?.getD world.disposition ≠ .ign
  | _ => True

/-! ## What one launch does -/

variable {world next : World} {disposition : Disposition} {handlers : List Disposition}

/-- In a process that has not run on_exec_setup a reset is one to the default. -/
theorem restoreAll_fresh (disposition : Disposition) (handlers : List Disposition) :
    restoreAll disposition (handlers.map fun handler => { handler := handler }) =
      if handlers = [] then disposition else .dfl := by
  induction handlers generalizing disposition with
  | nil => rfl
  | cons handler rest ih =>
    refine (ih .dfl).trans ?_
    rw [ite_self]
    exact (if_neg nofun).symm

theorem setupAll_disposition (disposition : Disposition) (handlers : List Disposition) :
    (forEach Init.onExecSetup disposition (handlers.map fun handler => { handler := handler })).1 =
      handlers.getLast?.getD disposition := by
  induction handlers generalizing disposition with
  | nil => rfl
  | cons handler rest ih =>
    refine (ih handler).trans ?_
    cases rest with
    | nil => rfl
    | cons other rest =>
      rw [List.getLast?_cons_cons]
      cases last : (other :: rest).getLast? with
      | none => exact absurd (List.getLast?_eq_none_iff.mp last) nofun
      | some final => rfl

/-- Each initializer resets to what it found, so the last one decides. -/
theorem restoreAll_shared (current disposition : Disposition) (handlers : List Disposition) (some' : handlers ≠ []) :
    restoreAll current (forEach Init.onExecSetup disposition (handlers.map fun handler => { handler := handler })).2 =
      found disposition handlers := by
  induction handlers generalizing current disposition with
  | nil => exact absurd rfl some'
  | cons handler rest ih =>
    cases rest with
    | nil => rfl
    | cons other rest =>
      refine (ih disposition handler nofun).trans ?_
      unfold found
      rw [List.dropLast_cons_cons, List.getLast?_cons]
      cases (other :: rest).dropLast.getLast? <;> rfl

theorem gentle_launch (vfork : Bool) (course : Course) :
    (launch world vfork course handlers).disposition = world.disposition ↔ Gentle world (.launch vfork course handlers) := by
  cases course with
  | silent => exact iff_of_true rfl trivial
  | refused =>
    change restoreAll _ _ = _ ↔ handlers = [] ∨ world.disposition = .dfl
    rw [restoreAll_fresh]
    by_cases none : handlers = []
    · simp [none]
    · simp [none, eq_comm]
  | started executed =>
    change restoreAll _ _ = _ ↔ handlers = [] ∨ _
    by_cases none : handlers = []
    · subst none
      cases vfork <;> exact iff_of_true rfl (.inl rfl)
    · rw [or_iff_right none]
      cases vfork with
      | true =>
        simp only [if_true]
        rw [restoreAll_shared _ _ _ none]
      | false =>
        simp only [Bool.false_eq_true, if_false]
        rw [restoreAll_fresh, if_neg none]
        exact eq_comm

theorem programs_launch (vfork : Bool) (course : Course) (mindful : ∀ program ∈ world.programs, program ≠ .ign) :
    (∀ program ∈ (launch world vfork course handlers).programs, program ≠ .ign) ↔
      Mindful world (.launch vfork course handlers) := by
  cases course with
  | silent => exact iff_of_true mindful trivial
  | refused => exact iff_of_true mindful trivial
  | started executed =>
    cases executed with
    | false => exact iff_of_true mindful trivial
    | true =>
      change (∀ program ∈ Disposition.exec _ :: world.programs, program ≠ .ign) ↔ _
      rw [List.forall_mem_cons, and_iff_left mindful, setupAll_disposition]
      change _ ↔ handlers.getLast?.getD world.disposition ≠ .ign
      generalize handlers.getLast?.getD world.disposition = last
      cases last <;> simp [Disposition.exec]

/-! ## Whole runs -/

/-- The handler of the service stays installed exactly if every launch is gentle, and then nobody misses that a child
has exited. No program is started with SIGCHLD ignored exactly if every launch is mindful. -/
theorem installed_iff_gentle (world final : World) (ops : List Op) (installed : world.disposition = .service)
    (told : world.exited = []) (mindful : ∀ program ∈ world.programs, program ≠ .ign)
    (reached : run step world ops = some final) :
    (Always step (fun world => world.disposition = .service) world ops ↔ Admits step Gentle world ops) ∧
      (Admits step Gentle world ops → final.exited = []) ∧
      ((∀ program ∈ final.programs, program ≠ .ign) ↔ Admits step Mindful world ops) := by
  refine ⟨?_, fun admitted => ?_, ?_⟩
  · have always : ∀ state label next, True → state.disposition = .service → step state label = some next → True :=
      fun _ _ _ _ _ _ => trivial
    refine always_iff_admits always ?_ trivial installed reached
    intro state op next _ here taken
    cases op with
    | launch vfork course handlers =>
      cases taken
      rw [← gentle_launch, here]
    | exit pid =>
      cases taken
      rw [if_pos here]
      exact iff_of_true here trivial
  · have heard : Preserves step Gentle fun world => world.disposition = .service ∧ world.exited = [] := by
      rintro state op next ⟨here, none⟩ gentle taken
      cases op with
      | launch vfork course handlers =>
        cases taken
        refine ⟨((gentle_launch vfork course).mpr gentle).trans here, ?_⟩
        cases course <;> exact none
      | exit pid =>
        cases taken
        rw [if_pos here]
        exact ⟨here, rfl⟩
    exact (run_invariant heard ⟨installed, told⟩ admitted reached).2
  · refine @last_iff_admits World Op step Mindful (fun world => ∀ program ∈ world.programs, program ≠ .ign) ?_ ?_ world
      final ops mindful reached
    · intro state op next kept taken
      cases op with
      | launch vfork course handlers =>
        cases taken
        exact programs_launch vfork course kept
      | exit pid =>
        cases taken
        split <;> exact iff_of_true kept trivial
    · intro state op next ignored taken kept
      apply ignored
      intro program member
      apply kept program
      cases op with
      | exit pid =>
        cases taken
        split <;> exact member
      | launch vfork course handlers =>
        cases taken
        cases course with
        | silent => exact member
        | refused => exact member
        | started executed =>
          cases executed with
          | false => exact member
          | true => exact List.mem_cons_of_mem _ member

/-- A launch with vfork, `system`, and the exit of a child after it. -/
def deafened : List Op := [.launch true (.started true) [.dfl], .exit 7, .launch false (.started true) [.dfl], .exit 8]

theorem installed_iff_gentle_deafened :
    ¬ Always step (fun world => world.disposition = .service) ⟨.service, [], [], []⟩ deafened ∧
      run step ⟨.service, [], [], []⟩ deafened = some ⟨.dfl, [8], [7], [.dfl, .dfl]⟩ := by
  have gentle := (installed_iff_gentle ⟨.service, [], [], []⟩ ⟨.dfl, [8], [7], [.dfl, .dfl]⟩ deafened rfl rfl (by decide) rfl).2.1
  refine ⟨fun always => ?_, rfl⟩
  exact absurd (gentle ((installed_iff_gentle ⟨.service, [], [], []⟩ ⟨.dfl, [8], [7], [.dfl, .dfl]⟩ deafened rfl rfl
    (by decide) rfl).1.mp always)) (by decide)

end BoostProcess.V1.Posix.SigInit
