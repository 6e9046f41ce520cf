import BoostProcess.V2.Posix.Initializer

/-! bind_fd and process_stdio: initializers that dup2 in the child.

A refusal is an errno with which the system fails one dup2 for reasons of its
own, before the descriptors are looked at.
-/

set_option autoImplicit false

namespace BoostProcess.V2.Posix

open Descriptors

/-- `if (::dup2(fd, target) == -1) return error_code(errno, system_category())` -/
def duplicate (refusal : Option Errno) (source target : Int) (child : Child) : ExecSetupReply :=
  match refusal with
  | some error => { ec := .system error.code, child := { child with errno := error.code } }
  | none =>
    match child.fds.dup2 source target with
    | some fds => { ec := .clear, child := { child with fds } }
    | none => { ec := .system Errno.EBADF.code, child := { child with errno := Errno.EBADF.code } }

def bindFd (target fd : Int) (refusal : Option Errno := none) : Initializer where
  onSetup errno := { ec := .clear, errno, whitelisted := [target] }
  onExecSetup child := duplicate refusal fd target child

/-- `process_stdio`, which has no on_setup. The three calls stop at the first
error. -/
def processStdio (input output error : Int) (refusals : Fin 3 → Option Errno := fun _ => none) : Initializer where
  onExecSetup child :=
    let first := duplicate (refusals 0) input 0 child
    if first.ec.failed then first
    else
      let second := duplicate (refusals 1) output 1 first.child
      if second.ec.failed then second else duplicate (refusals 2) error 2 second.child

theorem duplicate_succeeded {refusal : Option Errno} {source target : Int} {child : Child}
    (succeeded : ¬ (duplicate refusal source target child).ec.failed = true) :
    child.fds.dup2 source target = some (duplicate refusal source target child).child.fds := by
  unfold duplicate at succeeded ⊢
  cases refusal with
  | some error => simp at succeeded
  | none =>
    cases duplicated : child.fds.dup2 source target with
    | none => simp [duplicated] at succeeded
    | some fds => simp

@[simp] theorem duplicate_whitelisted (refusal : Option Errno) (source target : Int) (child : Child) :
    (duplicate refusal source target child).whitelisted = [] := by
  unfold duplicate
  cases refusal with
  | some error => rfl
  | none => cases child.fds.dup2 source target <;> rfl

end BoostProcess.V2.Posix
