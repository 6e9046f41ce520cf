import Mathlib.Logic.Function.Basic
import BoostProcess.V2.ErrorCode
import BoostProcess.V2.ExitCode

/-! basic_process_handle on POSIX: the operations on a pid.

The three handle classes have these functions in common, word for word. Numbers are
reused, so every process is an identity of its own; a handle carries the identity it
was made for next to the number, and only the log of system calls reads it.
-/

set_option autoImplicit false

namespace BoostProcess.V2.Process

inductive Signal where
  | sigint
  | sigterm
  | sigstop
  | sigcont
  | sigkill
  deriving DecidableEq

/-- What the kernel has under a number: a child of ours, perhaps a zombie, or a
process that waitpid does not know. -/
structure Proc where
  child : Nat
  own : Bool
  exited : Option ExitStatus := none

/-- A system call and the child its caller meant: waitpid names the process that it
collected and its status, kill the process that got the signal. -/
inductive Syscall where
  | waitpid (pid : Int) (meant : Option Nat) (reaped : Option (Nat × Int))
  | kill (pid : Int) (signal : Signal) (meant : Option Nat) (reached : Option Nat)
  deriving DecidableEq

namespace Syscall

def meant : Syscall → Option Nat
  | .waitpid _ meant _ => meant
  | .kill _ _ meant _ => meant

def reaped : Syscall → Option (Nat × Int)
  | .waitpid _ _ reaped => reaped
  | .kill .. => none

end Syscall

structure Sys where
  procs : Int → Option Proc
  /-- The identity of the next process. -/
  births : Nat
  /-- The last call first. -/
  log : List Syscall := []

/-- What is decided outside while a function runs: the status of a child that ends while it
is waited for, the signals that interrupt the wait, and whether kill is permitted. -/
structure Answer where
  status : ExitStatus := ⟨0, rfl⟩
  interrupts : Nat := 0
  permitted : Bool := true

inductive WaitResult where
  | failed (errno : Errno)
  | running
  | reaped (status : Int)
  deriving DecidableEq

namespace Sys

def call (sys : Sys) (syscall : Syscall) : Sys := { sys with log := syscall :: sys.log }

/-- waitpid reports the end of a child and frees its number. -/
def collect (sys : Sys) (pid : Int) (meant : Option Nat) (child : Nat) (status : ExitStatus) : Sys :=
  { sys with
    procs := Function.update sys.procs pid none
    log := .waitpid pid meant (some (child, status.status)) :: sys.log }

/-- `waitpid(pid, &status, WNOHANG)` -/
def waitNoHang (sys : Sys) (pid : Int) (meant : Option Nat) : Sys × WaitResult :=
  match sys.procs pid with
  | some ⟨child, true, some status⟩ => (sys.collect pid meant child status, .reaped status.status)
  | some ⟨_, true, none⟩ => (sys.call (.waitpid pid meant none), .running)
  | _ => (sys.call (.waitpid pid meant none), .failed .ECHILD)

/-- `waitpid(pid, &status, 0)`: the call lasts until the child ends, with that status, or
until a signal comes. -/
def waitFor (sys : Sys) (pid : Int) (meant : Option Nat) (status : ExitStatus) (interrupted : Bool) :
    Sys × WaitResult :=
  match sys.procs pid with
  | some ⟨child, true, some exited⟩ => (sys.collect pid meant child exited, .reaped exited.status)
  | some ⟨child, true, none⟩ =>
    if interrupted then (sys.call (.waitpid pid meant none), .failed .EINTR)
    else (sys.collect pid meant child status, .reaped status.status)
  | _ => (sys.call (.waitpid pid meant none), .failed .ECHILD)

/-- `kill(pid, signal)` and its error. -/
def kill (sys : Sys) (pid : Int) (signal : Signal) (meant : Option Nat) (permitted : Bool) : Sys × Option Errno :=
  match sys.procs pid with
  | none => (sys.call (.kill pid signal meant none), some .ESRCH)
  | some proc =>
    if permitted then (sys.call (.kill pid signal meant (some proc.child)), none)
    else (sys.call (.kill pid signal meant none), some .EPERM)

end Sys

structure Handle where
  pid : Int := -1
  child : Option Nat := none
  deriving DecidableEq

namespace Handle

def held (handle : Handle) : Option Nat := if 0 < handle.pid then handle.child else none

def number (handle : Handle) : Option Int := if 0 < handle.pid then some handle.pid else none

theorem held_some {handle : Handle} {child : Nat} :
    handle.held = some child ↔ 0 < handle.pid ∧ handle.child = some child := by
  simp [held]

@[simp] theorem held_default : held {} = none := rfl

@[simp] theorem number_default : number {} = none := rfl

end Handle

/-- The outcome of a function with the arguments `exit_status` and `ec`. -/
structure Result where
  sys : Sys
  exitStatus : Int
  ec : ErrorCode
  running : Bool := false

namespace Handle

def terminateIfRunning (handle : Handle) (sys : Sys) (answer : Answer) : Sys :=
  if handle.pid ≤ 0 then sys
  else
    let polled := sys.waitNoHang handle.pid handle.child
    if polled.2 = .running then
      let killed := (polled.1.kill handle.pid .sigkill handle.child answer.permitted).1
      -- not repeated when a signal interrupts it
      (killed.waitFor handle.pid handle.child answer.status (0 < answer.interrupts)).1
    else polled.1

/-- The loop of `wait`: an interrupted call is repeated. -/
def waitLoop (handle : Handle) (exitStatus : Int) (ec : ErrorCode) (status : ExitStatus) : Nat → Sys → Result
  | 0, sys =>
    let waited := sys.waitFor handle.pid handle.child status false
    match waited.2 with
    | .reaped reported => ⟨waited.1, reported, ec, false⟩
    | .failed errno => ⟨waited.1, exitStatus, .system errno.code, false⟩
    -- a blocking call never says so
    | .running => ⟨waited.1, exitStatus, ec, false⟩
  | interrupts + 1, sys =>
    let waited := sys.waitFor handle.pid handle.child status true
    match waited.2 with
    | .reaped reported => ⟨waited.1, reported, ec, false⟩
    | .failed errno =>
      if errno = .EINTR then waitLoop handle exitStatus ec status interrupts waited.1
      else ⟨waited.1, exitStatus, .system errno.code, false⟩
    | .running => ⟨waited.1, exitStatus, ec, false⟩

def wait (handle : Handle) (exitStatus : Int) (sys : Sys) (ec : ErrorCode) (answer : Answer) : Result :=
  if handle.pid ≤ 0 then ⟨sys, exitStatus, ec, false⟩
  else handle.waitLoop exitStatus ec answer.status answer.interrupts sys

/-- The functions that send one signal. -/
def send (signal : Signal) (handle : Handle) (sys : Sys) (ec : ErrorCode) (answer : Answer) : Sys × ErrorCode :=
  if handle.pid ≤ 0 then (sys, ec)
  else
    let killed := sys.kill handle.pid signal handle.child answer.permitted
    (killed.1, (killed.2.map fun errno => ErrorCode.system errno.code).getD ec)

def interrupt := send .sigint

def requestExit := send .sigterm

def suspend := send .sigstop

def resume := send .sigcont

def terminate (handle : Handle) (exitStatus : Int) (sys : Sys) (ec : ErrorCode) (answer : Answer) : Result :=
  if handle.pid ≤ 0 then ⟨sys, exitStatus, ec, false⟩
  else
    let killed := sys.kill handle.pid .sigkill handle.child answer.permitted
    match killed.2 with
    | some errno => ⟨killed.1, exitStatus, .system errno.code, false⟩
    | none => handle.wait exitStatus killed.1 ec answer

def running (handle : Handle) (exitCode : Int) (sys : Sys) (ec : ErrorCode) : Result :=
  if handle.pid ≤ 0 then ⟨sys, exitCode, ec, false⟩
  else
    let polled := sys.waitNoHang handle.pid handle.child
    match polled.2 with
    | .failed errno => ⟨polled.1, exitCode, .system errno.code, false⟩
    | .running => ⟨polled.1, exitCode, ec, true⟩
    | .reaped status => ⟨polled.1, status, .clear, false⟩

end Handle

/-- A handle for what is under a number. -/
def Sys.handleFor (sys : Sys) (pid : Int) : Handle := ⟨pid, (sys.procs pid).map Proc.child⟩

/-- The pidfd of a handle is ready when its process has ended. -/
def Sys.runs (sys : Sys) (handle : Handle) : Bool :=
  match sys.procs handle.pid with
  | some ⟨child, _, none⟩ => handle.child == some child
  | _ => false

def Sys.Free (sys : Sys) (pid : Int) : Prop := 0 < pid ∧ sys.procs pid = none

instance (sys : Sys) (pid : Int) : Decidable (sys.Free pid) := inferInstanceAs (Decidable (_ ∧ _))

def Sys.spawn (sys : Sys) (pid : Int) (own : Bool) : Sys :=
  { sys with procs := Function.update sys.procs pid (some ⟨sys.births, own, none⟩), births := sys.births + 1 }

/-- A child ends and waits to be waited for. -/
def Sys.ended (sys : Sys) (pid : Int) (child : Nat) (status : ExitStatus) : Sys :=
  { sys with procs := Function.update sys.procs pid (some ⟨child, true, some status⟩) }

def Sys.remove (sys : Sys) (pid : Int) : Sys := { sys with procs := Function.update sys.procs pid none }

/-- A status of the child has been collected. -/
def Sys.Collected (sys : Sys) (child : Nat) : Prop :=
  ∃ syscall ∈ sys.log, ∃ status, syscall.reaped = some (child, status)

/-! ## What an operation can do -/

/-- A call that a handle makes and that collects nothing. -/
def Quiet (handle : Handle) (syscall : Syscall) : Prop :=
  0 < handle.pid ∧ syscall.meant = handle.child ∧ syscall.reaped = none

/-- Some calls that collect nothing, then perhaps one that collects what is under the
number of the handle. -/
inductive Effect (handle : Handle) (sys : Sys) : Sys → Option ExitStatus → Prop where
  | quiet (calls : List Syscall) (ours : ∀ syscall ∈ calls, Quiet handle syscall) :
      Effect handle sys { sys with log := calls ++ sys.log } none
  | collected (calls : List Syscall) (ours : ∀ syscall ∈ calls, Quiet handle syscall) (valid : 0 < handle.pid)
      (child : Nat) (exited : Option ExitStatus) (status : ExitStatus)
      (there : sys.procs handle.pid = some ⟨child, true, exited⟩) :
      Effect handle sys (Sys.collect { sys with log := calls ++ sys.log } handle.pid handle.child child status)
        (some status)

namespace Effect

variable {handle : Handle} {sys middle final : Sys} {collected : Option ExitStatus}

theorem refl : Effect handle sys sys none := .quiet [] (by simp)

theorem call {syscall : Syscall} (ours : Quiet handle syscall) : Effect handle sys (sys.call syscall) none :=
  .quiet [syscall] (by simpa using ours)

theorem trans (first : Effect handle sys middle none) (second : Effect handle middle final collected) :
    Effect handle sys final collected := by
  cases first with
  | quiet calls ours =>
    cases second with
    | quiet later laterOurs =>
      rw [← List.append_assoc]
      apply Effect.quiet (later ++ calls)
      intro syscall member
      exact (List.mem_append.mp member).elim (laterOurs syscall) (ours syscall)
    | collected later laterOurs valid child exited status there =>
      -- the first calls collected nothing, so the process is where it was
      have unmoved : sys.procs handle.pid = some ⟨child, true, exited⟩ := there
      simp only [← List.append_assoc]
      apply Effect.collected (later ++ calls) _ valid child exited status unmoved
      intro syscall member
      exact (List.mem_append.mp member).elim (laterOurs syscall) (ours syscall)

theorem collect (valid : 0 < handle.pid) {child : Nat} {exited : Option ExitStatus} (status : ExitStatus)
    (there : sys.procs handle.pid = some ⟨child, true, exited⟩) :
    Effect handle sys (sys.collect handle.pid handle.child child status) (some status) :=
  .collected [] (by simp) valid child exited status there

end Effect

/-- The three outcomes of a call to waitpid on a handle. -/
inductive Waited (handle : Handle) (sys : Sys) : Sys × WaitResult → Prop where
  | failed (final : Sys) (errno : Errno) (effect : Effect handle sys final none) :
      Waited handle sys (final, .failed errno)
  | running (final : Sys) (effect : Effect handle sys final none) : Waited handle sys (final, .running)
  | reaped (final : Sys) (status : ExitStatus) (effect : Effect handle sys final (some status)) :
      Waited handle sys (final, .reaped status.status)

section
variable {handle : Handle} {sys : Sys}

theorem waitNoHang_waited (sys : Sys) (valid : 0 < handle.pid) :
    Waited handle sys (sys.waitNoHang handle.pid handle.child) := by
  unfold Sys.waitNoHang
  split
  · rename_i child status there
    exact .reaped _ status (.collect valid status there)
  · exact .running _ (.call ⟨valid, rfl, rfl⟩)
  · exact .failed _ _ (.call ⟨valid, rfl, rfl⟩)

theorem waitFor_waited (sys : Sys) (valid : 0 < handle.pid) (status : ExitStatus) (interrupted : Bool) :
    Waited handle sys (sys.waitFor handle.pid handle.child status interrupted) := by
  unfold Sys.waitFor
  split
  · rename_i child exited there
    exact .reaped _ exited (.collect valid exited there)
  · rename_i child there
    split
    · exact .failed _ _ (.call ⟨valid, rfl, rfl⟩)
    · exact .reaped _ status (.collect valid status there)
  · exact .failed _ _ (.call ⟨valid, rfl, rfl⟩)

theorem kill_effect (sys : Sys) (valid : 0 < handle.pid) (signal : Signal) (permitted : Bool) :
    Effect handle sys (sys.kill handle.pid signal handle.child permitted).1 none := by
  unfold Sys.kill
  split
  · exact .call ⟨valid, rfl, rfl⟩
  · split
    · exact .call ⟨valid, rfl, rfl⟩
    · exact .call ⟨valid, rfl, rfl⟩

/-- The exit status changes exactly when the operation collects one. -/
def Result.Reports (result : Result) (handle : Handle) (sys : Sys) (before : Int) : Prop :=
  ∃ collected, Effect handle sys result.sys collected ∧
    result.exitStatus = (collected.map ExitStatus.status).getD before

theorem Result.Reports.after {result : Result} {middle : Sys} {before : Int} (first : Effect handle sys middle none)
    (second : result.Reports handle middle before) : result.Reports handle sys before := by
  obtain ⟨collected, effect, same⟩ := second
  exact ⟨collected, first.trans effect, same⟩

theorem waitLoop_reports (valid : 0 < handle.pid) (exitStatus : Int) (ec : ErrorCode) (status : ExitStatus)
    (interrupts : Nat) : (handle.waitLoop exitStatus ec status interrupts sys).Reports handle sys exitStatus := by
  induction interrupts generalizing sys with
  | zero =>
    unfold Handle.waitLoop
    have waited := waitFor_waited sys valid status false
    generalize sys.waitFor handle.pid handle.child status false = outcome at waited ⊢
    cases waited with
    | failed final errno effect => exact ⟨none, effect, rfl⟩
    | running final effect => exact ⟨none, effect, rfl⟩
    | reaped final reported effect => exact ⟨some reported, effect, rfl⟩
  | succ interrupts ih =>
    unfold Handle.waitLoop
    -- an interrupted call collects nothing and is made again
    have waited := waitFor_waited sys valid status true
    generalize sys.waitFor handle.pid handle.child status true = outcome at waited ⊢
    cases waited with
    | failed final errno effect =>
      dsimp only
      split
      · exact Result.Reports.after effect ih
      · exact ⟨none, effect, rfl⟩
    | running final effect => exact ⟨none, effect, rfl⟩
    | reaped final reported effect => exact ⟨some reported, effect, rfl⟩

theorem wait_reports (exitStatus : Int) (ec : ErrorCode) (answer : Answer) :
    (handle.wait exitStatus sys ec answer).Reports handle sys exitStatus := by
  unfold Handle.wait
  split
  · exact ⟨none, .refl, rfl⟩
  · rename_i valid
    exact waitLoop_reports (not_le.mp valid) exitStatus ec answer.status answer.interrupts

theorem terminate_reports (exitStatus : Int) (ec : ErrorCode) (answer : Answer) :
    (handle.terminate exitStatus sys ec answer).Reports handle sys exitStatus := by
  unfold Handle.terminate
  split
  · exact ⟨none, .refl, rfl⟩
  · rename_i valid
    have killed := kill_effect sys (not_le.mp valid) .sigkill answer.permitted
    dsimp only
    split
    · exact ⟨none, killed, rfl⟩
    · exact Result.Reports.after killed (wait_reports exitStatus ec answer)

/-- `running` stores a status together with a clear error_code; otherwise the process runs
or the error_code is set, except without a number. -/
theorem running_cases (handle : Handle) (sys : Sys) (exitCode : Int) (ec : ErrorCode) :
    handle.pid ≤ 0 ∧ handle.running exitCode sys ec = ⟨sys, exitCode, ec, false⟩ ∨
      (∃ status, Effect handle sys (handle.running exitCode sys ec).sys (some status) ∧
        handle.running exitCode sys ec = ⟨(handle.running exitCode sys ec).sys, status.status, .clear, false⟩) ∨
      Effect handle sys (handle.running exitCode sys ec).sys none ∧
        ((handle.running exitCode sys ec).running = true ∨ (handle.running exitCode sys ec).ec.failed = true) := by
  unfold Handle.running
  split
  · rename_i empty
    exact .inl ⟨empty, rfl⟩
  · rename_i valid
    have waited := waitNoHang_waited sys (not_le.mp valid)
    generalize sys.waitNoHang handle.pid handle.child = outcome at waited ⊢
    cases waited with
    | failed final errno effect => exact .inr (.inr ⟨effect, .inr (ErrorCode.failed_errno errno)⟩)
    | running final effect => exact .inr (.inr ⟨effect, .inl rfl⟩)
    | reaped final status effect => exact .inr (.inl ⟨status, effect, rfl⟩)

theorem send_effect (signal : Signal) (ec : ErrorCode) (answer : Answer) :
    Effect handle sys (Handle.send signal handle sys ec answer).1 none := by
  unfold Handle.send
  split
  · exact .refl
  · rename_i valid
    exact kill_effect sys (not_le.mp valid) signal answer.permitted

theorem terminateIfRunning_effect (handle : Handle) (sys : Sys) (answer : Answer) :
    ∃ collected, Effect handle sys (handle.terminateIfRunning sys answer) collected := by
  unfold Handle.terminateIfRunning
  split
  · exact ⟨none, .refl⟩
  · rename_i invalid
    have valid := not_le.mp invalid
    have polled := waitNoHang_waited sys valid
    generalize sys.waitNoHang handle.pid handle.child = outcome at polled ⊢
    cases polled with
    | failed final errno effect => exact ⟨none, by simpa using effect⟩
    | reaped final status effect => exact ⟨some status, by simpa using effect⟩
    | running final effect =>
      simp only [if_true]
      have killed := effect.trans (kill_effect final valid .sigkill answer.permitted)
      have waited := waitFor_waited (final.kill handle.pid .sigkill handle.child answer.permitted).1 valid
        answer.status (0 < answer.interrupts)
      generalize (final.kill handle.pid .sigkill handle.child answer.permitted).1.waitFor handle.pid handle.child
        answer.status (0 < answer.interrupts) = outcome at waited ⊢
      cases waited with
      | failed last errno effect => exact ⟨none, killed.trans effect⟩
      | running last effect => exact ⟨none, killed.trans effect⟩
      | reaped last status effect => exact ⟨some status, killed.trans effect⟩

end

end BoostProcess.V2.Process
