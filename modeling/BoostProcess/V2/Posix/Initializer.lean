import BoostProcess.Library.Descriptors
import BoostProcess.V2.ErrorCode

/-! Initializers and the functions that invoke their hooks.

A hook is what it does in one launch: the error_code it returns, the errno it
leaves behind, the numbers it pushes onto the launcher's whitelist and, in the
child, its effect on the descriptor table. A hook that a type does not have is
the default one. No hook replaces the command line that is passed to it.
-/

set_option autoImplicit false

namespace BoostProcess.V2.Posix

open Descriptors

/-- Open files as a launch sees them: those opened before it and the ends of
the pipes that the launcher itself creates. -/
inductive File where
  | opened (id : Nat)
  | errorRead
  | errorWrite
  | waitRead
  | waitWrite
  deriving DecidableEq, Repr

structure SetupReply where
  ec : ErrorCode
  errno : Int
  whitelisted : List Int := []
  /-- The environment that a process_environment puts in the launcher. -/
  env : Option Nat := none

/-- What a child owns after fork: its errno and its descriptors. -/
structure Child where
  errno : Int
  fds : Table File

structure ExecSetupReply where
  ec : ErrorCode
  child : Child
  whitelisted : List Int := []

structure Initializer where
  onSetup : Int → SetupReply := fun errno => { ec := .clear, errno }
  onError : ErrorCode → Int → Int := fun _ errno => errno
  onForkError : ErrorCode → Int → Int := fun _ errno => errno
  onSuccess : Int → Int := id
  onExecSetup : Child → ExecSetupReply := fun child => { ec := .clear, child }
  onExecError : ErrorCode → Int → Int := fun _ errno => errno

/-- What a launch does that others can observe. Hooks are named by the position
of their initializer. -/
inductive Event where
  | onError (index : Nat) (ec : ErrorCode)
  | onForkError (index : Nat) (ec : ErrorCode)
  | onSuccess (index : Nat)
  | onExecError (index : Nat) (ec : ErrorCode)
  | close (fd : Int)
  | waitpid (pid : Int) (reaped : Bool)
  deriving DecidableEq, Repr

/-- The caller's errno together with the events so far. -/
structure Notified where
  errno : Int
  log : List Event

/-- `detail::on_setup`: the first error ends the sequence. -/
def onSetup : List Initializer → Int → SetupReply
  | [], errno => { ec := .clear, errno }
  | init :: inits, errno =>
    let reply := init.onSetup errno
    if reply.ec.failed then reply
    else
      let later := onSetup inits reply.errno
      { later with
        whitelisted := reply.whitelisted ++ later.whitelisted
        -- the last environment that was set is used
        env := later.env.or reply.env }

/-- `detail::on_exec_setup`: the first error ends the sequence. -/
def onExecSetup : List Initializer → Child → ExecSetupReply
  | [], child => { ec := .clear, child }
  | init :: inits, child =>
    let reply := init.onExecSetup child
    if reply.ec.failed then reply
    else
      let later := onExecSetup inits reply.child
      { later with whitelisted := reply.whitelisted ++ later.whitelisted }

/-- The notifications call one hook of every initializer, in order. -/
def notify (hook : Initializer → Int → Int) (event : Nat → Event) :
    List Initializer → Nat → Int → Notified
  | [], _, errno => ⟨errno, []⟩
  | init :: inits, index, errno =>
    let later := notify hook event inits (index + 1) (hook init errno)
    ⟨later.errno, event index :: later.log⟩

def onError (ec : ErrorCode) (inits : List Initializer) (errno : Int) : Notified :=
  notify (fun init => init.onError ec) (fun index => .onError index ec) inits 0 errno

def onForkError (ec : ErrorCode) (inits : List Initializer) (errno : Int) : Notified :=
  notify (fun init => init.onForkError ec) (fun index => .onForkError index ec) inits 0 errno

def onSuccess (inits : List Initializer) (errno : Int) : Notified :=
  notify (fun init => init.onSuccess) .onSuccess inits 0 errno

def onExecError (ec : ErrorCode) (inits : List Initializer) (errno : Int) : Notified :=
  notify (fun init => init.onExecError ec) (fun index => .onExecError index ec) inits 0 errno

theorem notify_log (hook : Initializer → Int → Int) (event : Nat → Event) (inits : List Initializer)
    (start : Nat) (errno : Int) :
    (notify hook event inits start errno).log = (List.range' start inits.length).map event := by
  induction inits generalizing start errno with
  | nil => rfl
  | cons init inits ih => simp [notify, List.range'_succ, ih]

section
variable {ec : ErrorCode} {inits : List Initializer} {errno : Int} {event : Event}

theorem mem_onError :
    event ∈ (onError ec inits errno).log ↔ ∃ index < inits.length, event = .onError index ec := by
  simp [onError, notify_log, ← List.range_eq_range', eq_comm]

theorem mem_onForkError :
    event ∈ (onForkError ec inits errno).log ↔ ∃ index < inits.length, event = .onForkError index ec := by
  simp [onForkError, notify_log, ← List.range_eq_range', eq_comm]

theorem mem_onSuccess :
    event ∈ (onSuccess inits errno).log ↔ ∃ index < inits.length, event = .onSuccess index := by
  simp [onSuccess, notify_log, ← List.range_eq_range', eq_comm]

end

end BoostProcess.V2.Posix
