import BoostProcess.Library.Retry
import BoostProcess.V2.ErrorCode

/-! The loops around read and write in `_write_error` and `_read_error` of the executor.

Each of the two functions has a loop for the header and one for the message. `_read_error` runs
in the parent, where pid is not 0, and hands its errors to set_error.
-/

set_option autoImplicit false

namespace BoostProcess.V1.Posix.ErrorLoops

open BoostProcess.V2 (Errno)
open Retry

/-- How the body of a loop leaves it. -/
inductive Exit where
  | broke
  | returned
  | threw (ec : Errno) (msg : String)
  deriving DecidableEq

/-- What set_error puts into `_ec` and `_msg`. -/
structure Stored where
  ec : Errno
  msg : String
  deriving DecidableEq

abbrev Loop := Run Errno Nat Exit Stored

/-- `set_error` at the end of a loop body: it throws, unless there is an error handler. -/
def setError (hasErrorHandler : Bool) (ec : Errno) (msg : String) : Reaction Exit Stored :=
  if hasErrorHandler then .again (some ⟨ec, msg⟩) else .leave (.threw ec msg)

/-- The body of both loops of `_write_error`. -/
def writeBody (err : Errno) : Reaction Exit Stored :=
  if err = .EBADF then .leave .returned
  else if err ≠ .EINTR ∧ err ≠ .EAGAIN then .leave .broke
  else .again none

def readHeaderBody (hasErrorHandler : Bool) (err : Errno) : Reaction Exit Stored :=
  if err ≠ .EAGAIN ∧ err ≠ .EINTR then setError hasErrorHandler err "Error read pipe" else .again none

def readMessageBody (hasErrorHandler : Bool) (err : Errno) : Reaction Exit Stored :=
  if err = .EBADF ∨ err = .EPERM then .leave .returned
  else if err ≠ .EAGAIN ∧ err ≠ .EINTR then setError hasErrorHandler err "Error read pipe"
  else .again none

/-- The loops that `_write_error` comes to. Behind a break the message is written all the same. -/
def writeErrorLoops (results : List (Except Errno Nat)) : List Loop :=
  let header := run writeBody results
  match header.outcome with
  | some (.value _) | some (.exit .broke) => [header, run writeBody header.rest]
  | _ => [header]

/-- The loops that `_read_error` comes to, when `data[1]` is `size` behind the first. At the end
of the pipe it returns, and the constructor of a message of negative size throws. -/
def readErrorLoops (hasErrorHandler : Bool) (size : Int) (results : List (Except Errno Nat)) : List Loop :=
  let header := run (readHeaderBody hasErrorHandler) results
  match header.outcome with
  | some (.value count) =>
    if count = 0 ∨ size < 0 then [header] else [header, run (readMessageBody hasErrorHandler) header.rest]
  | _ => [header]

/-- An error behind which there is no point in trying again. -/
def Fatal (err : Errno) : Prop := err ≠ .EAGAIN ∧ err ≠ .EINTR

/-- No read fails for good before the header is read, nor one behind it before the message is
read or the function returns. -/
structure Quiet (size : Int) (results : List (Except Errno Nat)) : Prop where
  header : ∀ err ∈ leadingErrors (fun _ => true) results, ¬Fatal err
  message : ∀ count rest, firstSuccess results = some (count, rest) → ¬(count = 0 ∨ size < 0) →
    ∀ err ∈ leadingErrors (fun err => err ≠ .EBADF ∧ err ≠ .EPERM) rest, ¬Fatal err

instance (err : Errno) : Decidable (Fatal err) := inferInstanceAs (Decidable (_ ∧ _))

theorem leavesAt_of_goesOn {react : Errno → Reaction Exit Stored} (leaves : ∀ err, (react err).goesOn = true → ¬Fatal err)
    (results : List (Except Errno Nat)) : (run react results).LeavesAt Fatal := by
  rw [run_leavesAt_iff]
  intro err member
  exact leaves err (@kind_of_mem_leadingErrors _ _ (fun err => (react err).goesOn) _ _ member)

theorem writeBody_goesOn (err : Errno) (goes : (writeBody err).goesOn = true) : ¬Fatal err := by
  unfold writeBody at goes
  split at goes
  · cases goes
  · split at goes
    · cases goes
    · rename_i again
      exact fun fatal => again ⟨fatal.2, fatal.1⟩

theorem setError_goesOn (hasErrorHandler : Bool) (ec : Errno) (msg : String) :
    (setError hasErrorHandler ec msg).goesOn = hasErrorHandler := by
  cases hasErrorHandler <;> rfl

theorem readHeaderBody_goesOn (hasErrorHandler : Bool) (err : Errno) :
    (readHeaderBody hasErrorHandler err).goesOn = true ↔ hasErrorHandler = true ∨ ¬Fatal err := by
  unfold readHeaderBody
  split
  · rename_i fatal
    rw [setError_goesOn]
    exact ⟨.inl, fun either => either.resolve_right (not_not_intro fatal)⟩
  · rename_i transient
    exact iff_of_true rfl (.inr transient)

theorem readMessageBody_goesOn (hasErrorHandler : Bool) (err : Errno) :
    (readMessageBody hasErrorHandler err).goesOn = true ↔
      (err ≠ .EBADF ∧ err ≠ .EPERM) ∧ (hasErrorHandler = true ∨ ¬Fatal err) := by
  unfold readMessageBody
  split
  · rename_i ends
    refine iff_of_false Bool.false_ne_true ?_
    rintro ⟨⟨first, second⟩, -⟩
    exact ends.elim first second
  · rename_i other
    rw [not_or] at other
    have same := readHeaderBody_goesOn hasErrorHandler err
    unfold readHeaderBody at same
    rw [same, and_iff_right other]

theorem mem_writeErrorLoops {results : List (Except Errno Nat)} {loop : Loop} (member : loop ∈ writeErrorLoops results) :
    ∃ asked, loop = run writeBody asked := by
  unfold writeErrorLoops at member
  dsimp only at member
  split at member <;> simp only [List.mem_cons, List.not_mem_nil, or_false] at member
  · rcases member with rfl | rfl <;> exact ⟨_, rfl⟩
  · rcases member with rfl | rfl <;> exact ⟨_, rfl⟩
  · exact ⟨_, member⟩

/-- Without an error handler set_error throws, and no body goes on behind a fatal error. -/
theorem readErrorLoops_throwing (size : Int) (reads : List (Except Errno Nat)) :
    ∀ loop ∈ readErrorLoops false size reads, loop.LeavesAt Fatal := by
  have header := leavesAt_of_goesOn fun err goes => ((readHeaderBody_goesOn false err).mp goes).resolve_left Bool.false_ne_true
  have message :=
    leavesAt_of_goesOn fun err goes => ((readMessageBody_goesOn false err).mp goes).2.resolve_left Bool.false_ne_true
  unfold readErrorLoops
  dsimp only
  split
  · split
    · exact List.forall_mem_singleton.mpr (header reads)
    · exact List.forall_mem_cons.mpr ⟨header reads, List.forall_mem_singleton.mpr (message _)⟩
  · exact List.forall_mem_singleton.mpr (header reads)

/-- With an error handler the bodies go on behind every error that is handed to set_error. -/
theorem readErrorLoops_storing_iff (size : Int) (reads : List (Except Errno Nat)) :
    (∀ loop ∈ readErrorLoops true size reads, loop.LeavesAt Fatal) ↔ Quiet size reads := by
  have header_goes (err : Errno) : (readHeaderBody true err).goesOn = true := (readHeaderBody_goesOn true err).mpr (.inl rfl)
  have header : (run (readHeaderBody true) reads).LeavesAt Fatal ↔
      ∀ err ∈ leadingErrors (fun _ => true) reads, ¬Fatal err := by
    rw [run_leavesAt_iff]
    simp only [header_goes]
  have message (rest : List (Except Errno Nat)) : (run (readMessageBody true) rest).LeavesAt Fatal ↔
      ∀ err ∈ leadingErrors (fun err => err ≠ .EBADF ∧ err ≠ .EPERM) rest, ¬Fatal err := by
    have kinds : (fun err => (readMessageBody true err).goesOn) = fun err => decide (err ≠ Errno.EBADF ∧ err ≠ Errno.EPERM) := by
      funext err
      rw [Bool.eq_iff_iff, readMessageBody_goesOn, decide_eq_true_iff]
      simp
    rw [run_leavesAt_iff, kinds]
  unfold readErrorLoops
  dsimp only
  rcases run_of_goesOn header_goes reads with ⟨outcome, first⟩ | ⟨count, rest, outcome, behind, first⟩
  · rw [outcome]
    simp only [List.forall_mem_singleton, header]
    exact ⟨fun quiet => ⟨quiet, by simp [first]⟩, Quiet.header⟩
  · rw [outcome, behind]
    by_cases ends : count = 0 ∨ size < 0
    · simp only [if_pos ends, List.forall_mem_singleton, header]
      refine ⟨fun quiet => ⟨quiet, ?_⟩, Quiet.header⟩
      intro count' rest' same goes
      rw [first] at same
      cases same
      exact absurd ends goes
    · dsimp only
      rw [if_neg ends, List.forall_mem_cons, List.forall_mem_singleton, header, message]
      constructor
      · rintro ⟨quiet, later⟩
        refine ⟨quiet, ?_⟩
        intro count' rest' same _
        rw [first] at same
        cases same
        exact later
      · exact fun quiet => ⟨quiet.header, quiet.message count rest first ends⟩

/-- Every loop is left by the first call that fails for good, unless there is an error handler
and such an error meets one of the loops of `_read_error`. -/
theorem leavesAt_iff_quiet (hasErrorHandler : Bool) (size : Int) (writes reads : List (Except Errno Nat)) :
    (∀ loop ∈ writeErrorLoops writes ++ readErrorLoops hasErrorHandler size reads, loop.LeavesAt Fatal) ↔
      hasErrorHandler = false ∨ Quiet size reads := by
  have write_leaves : ∀ loop ∈ writeErrorLoops writes, loop.LeavesAt Fatal := by
    intro loop member
    obtain ⟨asked, rfl⟩ := mem_writeErrorLoops member
    exact leavesAt_of_goesOn writeBody_goesOn asked
  rw [List.forall_mem_append, and_iff_right write_leaves]
  cases hasErrorHandler with
  | false => exact iff_of_true (readErrorLoops_throwing size reads) (.inl rfl)
  | true => simpa using readErrorLoops_storing_iff size reads

/-- The source of the pipe is not a descriptor, and an error handler has been given: the read is
made again and again. -/
theorem not_leavesAt_EBADF :
    ¬∀ (hasErrorHandler : Bool) (size : Int) (writes reads : List (Except Errno Nat)),
      ∀ loop ∈ writeErrorLoops writes ++ readErrorLoops hasErrorHandler size reads, loop.LeavesAt Fatal := by
  intro holds
  have leaves := holds true 0 [] [.error .EBADF, .error .EBADF]
    (run (readHeaderBody true) [.error .EBADF, .error .EBADF]) (List.mem_append_right _ List.mem_cons_self)
  have last := (leaves [] .EBADF [.error .EBADF] rfl (by decide)).1
  cases last

end BoostProcess.V1.Posix.ErrorLoops
