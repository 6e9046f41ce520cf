import BoostProcess.V2.Posix.CloseHandles
import BoostProcess.V2.Posix.Initializer

/-! The POSIX launchers: default_launcher and the three that derive from it.

One launch is a function of what the operating system answers, of the
initializers and of the launcher object. The child of a fork works on copies;
only what it writes into the error pipe reaches the parent. The child of a vfork
shares ec, errno and the launcher with its parent.
-/

set_option autoImplicit false

namespace BoostProcess.V2.Posix

open Descriptors

/-- The two numbers that a successful pipe call stores. -/
structure Pipe where
  read : Int
  write : Int
  distinct : read ≠ write
  read_number : IsNumber read
  write_number : IsNumber write
  deriving DecidableEq

/-- How close_all ends. With close_range it never touches ec; fdwalk always
assigns the last error; without either, /dev/fd is listed or fails to open. -/
inductive CloseAllOutcome where
  | closed
  | walked (errno : Int)
  | listed
  | notOpened (error : Errno)
  deriving DecidableEq

/-- What the operating system answers in one launch. The list `reads` holds the
errors of the calls to read that come before one that delivers; `interrupts`
counts the calls to waitpid that a signal interrupts. -/
structure Os where
  pipe : Except Errno Pipe
  fcntl : Option Errno := none
  waitPipe : Except Errno Pipe
  waitFcntl : Option Errno := none
  fork : Except Errno Int
  /-- What execution_context::notify_fork leaves in errno. -/
  notifyFork : Int → Int := id
  closeAll : CloseAllOutcome := .closed
  execve : Option Errno := none
  /-- What the child's write into the error pipe leaves in errno. -/
  write : Int → Int := id
  reads : List Errno := []
  interrupts : Nat := 0

/-- `default_launcher`. Strings are referred to by address, 0 is not one. -/
structure Launcher where
  env : Nat
  pid : Int := -1
  fdWhitelist : List Int := [0, 1, 2]
  argvBuffer : List String := []
  argv : List (Option Nat) := []

/-- Arguments of a launch: a range that converts to cstring_ref is borrowed, any
other range is converted element by element, and `const char **` is passed on.
A converted string is kept in the launcher, at the address of its position. -/
inductive Args where
  | borrowed (args : List Nat)
  | converted (args : List (Except ErrorCode String)) (address : Nat → Nat)
  | raw (argv : List (Option Nat))

structure Launch where
  executable : Nat
  args : Args
  inits : List Initializer
  errno : Int
  /-- The descriptors of the parent before the launch. -/
  fds : Table Nat
  os : Os

/-! ## The child -/

/-- How the child got past on_exec_setup, close_all_fds and execve, with its state
there. -/
inductive ChildResult where
  | replaced (child : Child)
  | execSetupFailed (reply : ExecSetupReply)
  | closeAllFailed (ec : ErrorCode) (child : Child)
  | execveFailed (error : Errno) (child : Child)

namespace ChildResult

def child : ChildResult → Child
  | .replaced child => child
  | .execSetupFailed reply => reply.child
  | .closeAllFailed _ child => child
  | .execveFailed _ child => child

/-- The error of the step that kept execve from replacing the image. -/
def error : ChildResult → Option ErrorCode
  | .replaced _ => none
  | .execSetupFailed reply => some reply.ec
  | .closeAllFailed ec _ => some ec
  | .execveFailed error _ => some (.system error.code)

/-- The descriptors of the executed image. -/
def image : ChildResult → Option (Table File)
  | .replaced child => some child.fds.exec
  | _ => none

/-- What close_all_fds leaves open, if the child gets that far. -/
def survivors : ChildResult → Option (Table File)
  | .replaced child => some child.fds
  | .execveFailed _ child => some child.fds
  | _ => none

/-- The int that `write(pg.p[1], &errno, sizeof(int))` puts into the error pipe.
If the number refers to anything else, the parent gets nothing. -/
def report (result : ChildResult) (write : Int) : Option Int :=
  match result.error with
  | none => none
  -- a hook may have put another file there, or closed it
  | some _ => if result.child.fds.file write = some .errorWrite then some result.child.errno else none

/-- Behind the report: `ec.assign(errno, system_category())` and on_exec_error, then exit. -/
def execError (inits : List Initializer) (reported : Int → Int) (result : ChildResult) : Notified :=
  match result.error with
  | none => ⟨result.child.errno, []⟩
  | some _ =>
    let errno := reported result.child.errno
    onExecError (.system errno) inits errno

end ChildResult

def closeAllFds (os : Os) (fdWhitelist : List Int) (child : Child) : ErrorCode × Child :=
  -- sorted in place, closed around, and then reset to the standard streams
  let sorted := fdWhitelist.insertionSort (· ≤ ·)
  match os.closeAll with
  | .closed => (.clear, { child with fds := closeAll sorted child.fds })
  | .walked errno => (.system errno, ⟨errno, lookupAll sorted child.fds⟩)
  | .listed => (.clear, { child with fds := lookupAll sorted child.fds })
  | .notOpened error => (.system error.code, { child with errno := error.code })

/-- The part of the child up to execve, the same in every launcher. -/
def setupAndExec (os : Os) (inits : List Initializer) (fdWhitelist : List Int) (child : Child) :
    ChildResult :=
  let reply := onExecSetup inits child
  if reply.ec.failed then .execSetupFailed reply
  else
    let closed := closeAllFds os (fdWhitelist ++ reply.whitelisted) reply.child
    if closed.1.failed then .closeAllFailed closed.1 closed.2
    else
      match os.execve with
      | none => .replaced closed.2
      | some error => .execveFailed error { closed.2 with errno := error.code }

/-! ## The parent -/

structure PipeGuard where
  p0 : Int := -1
  p1 : Int := -1

def PipeGuard.destroy (pg : PipeGuard) : List Event :=
  (if pg.p0 ≠ -1 then [.close pg.p0] else []) ++ (if pg.p1 ≠ -1 then [.close pg.p1] else [])

/-- The variables count, child_error and ec after the loop around read. -/
structure ReadEnd where
  count : Int
  childError : Int
  ec : ErrorCode
  errno : Int

/-- The loop around `read(pg.p[0], &child_error, sizeof(child_error))`. -/
def readErrorPipe (ec : ErrorCode) (word : Option Int) : List Errno → Int → ReadEnd
  | [], errno =>
    match word with
    | some value => ⟨4, value, ec, errno⟩
    | none => ⟨0, 0, ec, errno⟩
  | error :: rest, _ =>
    if error ≠ Errno.EAGAIN ∧ error ≠ Errno.EINTR then ⟨-1, 0, .system error.code, error.code⟩
    else readErrorPipe ec word rest error.code

/-- `if (count != 0) ec = child_error` -/
def ReadEnd.reported (reply : ReadEnd) : ErrorCode :=
  if reply.count ≠ 0 then .system reply.childError else reply.ec

/-- `do { waitpid(pid, nullptr, 0); } while (errno == EINTR);`. A successful call
leaves errno alone, so an old EINTR causes one more call, which fails. -/
def reap (pid : Int) : Nat → Int → List Event
  | interrupts + 1, _ => .waitpid pid false :: reap pid interrupts Errno.EINTR.code
  | 0, errno => .waitpid pid true :: if errno = Errno.EINTR.code then [.waitpid pid false] else []

structure ChildRun where
  argv : List (Option Nat)
  env : Nat
  result : ChildResult
  /-- The notifications in a child whose image was not replaced. -/
  log : List Event

structure Returned where
  ec : ErrorCode
  log : List Event
  child : Option ChildRun := none

/-- The descriptors at fork: those of the parent and the launcher's pipes. -/
def openedFds (fds : Table Nat) : Table File :=
  fun number => (fds number).map fun descriptor => ⟨.opened descriptor.file, descriptor.closeOnExec⟩

def withErrorPipe (pipe : Pipe) (fds : Table File) : Table File :=
  Function.update (Function.update fds pipe.read (some ⟨.errorRead, false⟩))
    pipe.write (some ⟨.errorWrite, true⟩)

def withWaitPipe (pipe : Pipe) (fds : Table File) : Table File :=
  Function.update (Function.update fds pipe.read (some ⟨.waitRead, false⟩))
    pipe.write (some ⟨.waitWrite, true⟩)

/-- The launcher after on_setup: the hooks push onto the whitelist and may
replace the environment. -/
def Launcher.setUp (self : Launcher) (reply : SetupReply) : Launcher :=
  { self with fdWhitelist := self.fdWhitelist ++ reply.whitelisted, env := reply.env.getD self.env }

namespace DefaultLauncher

def forkedChild (launch : Launch) (pipe : Pipe) (errno : Int) : Child :=
  { errno := launch.os.notifyFork errno,
    fds := (withErrorPipe pipe (openedFds launch.fds)).close pipe.read }

/-- The parent after fork, until it returns. -/
def awaitExec (launch : Launch) (pg : PipeGuard) (pid : Int) (ec : ErrorCode) (errno : Int)
    (child : ChildRun) : Returned :=
  let reply := readErrorPipe ec (child.result.report pg.p1) launch.os.reads errno
  let ec := reply.reported
  let closed := [Event.close pg.p1]
  let pg := { pg with p1 := -1 }
  if ec.failed then
    let errors := onError ec launch.inits reply.errno
    { ec, child := some child
      log := closed ++ errors.log ++ reap pid launch.os.interrupts errors.errno ++ pg.destroy }
  else
    { ec, child := some child
      log := closed ++ pg.destroy ++ (onSuccess launch.inits reply.errno).log }

/-- `default_launcher::operator()` after build_argv_. -/
def launch (launch : Launch) (argv : List (Option Nat)) (self : Launcher) : Launcher × Returned :=
  let os := launch.os
  match os.pipe with
  | .error error => (self, { ec := .system error.code, log := PipeGuard.destroy {} })
  | .ok pipe =>
    let pg : PipeGuard := ⟨pipe.read, pipe.write⟩
    match os.fcntl with
    | some error => (self, { ec := .system error.code, log := pg.destroy })
    | none =>
      let setup := onSetup launch.inits launch.errno
      let self := self.setUp setup
      if setup.ec.failed then
        let errors := onError setup.ec launch.inits setup.errno
        (self, { ec := setup.ec, log := errors.log ++ pg.destroy })
      else
        -- pushed in the parent, and nothing takes it off again
        let self := { self with fdWhitelist := self.fdWhitelist ++ [pipe.write] }
        let errno := os.notifyFork setup.errno
        match os.fork with
        | .error error =>
          let forkErrors := onForkError setup.ec launch.inits (os.notifyFork error.code)
          let errors := onError setup.ec launch.inits forkErrors.errno
          -- ec is assigned from errno when the hooks have already run
          ({ self with pid := -1 },
            { ec := .system errors.errno, log := forkErrors.log ++ errors.log ++ pg.destroy })
        | .ok pid =>
          let self := { self with pid }
          let result := setupAndExec os launch.inits self.fdWhitelist (forkedChild launch pipe errno)
          (self, awaitExec launch pg pid setup.ec (os.notifyFork errno)
            ⟨argv, self.env, result, (result.execError launch.inits os.write).log⟩)

end DefaultLauncher

namespace PipeForkLauncher

def forkedChild (launch : Launch) (pipe waitPipe : Pipe) (errno : Int) : Child :=
  { errno := launch.os.notifyFork errno,
    fds := (withWaitPipe waitPipe (withErrorPipe pipe (openedFds launch.fds))).close pipe.read }

/-- The parent after fork. The second pipe stays open in the process object; a
failed child is not waited for. -/
def awaitExec (launch : Launch) (pg pgWait : PipeGuard) (ec : ErrorCode) (errno : Int)
    (child : ChildRun) : Returned :=
  let reply := readErrorPipe ec (child.result.report pg.p1) launch.os.reads errno
  let ec := reply.reported
  let closed := [Event.close pg.p1, .close pgWait.p1]
  let pg := { pg with p1 := -1 }
  let pgWait := { pgWait with p1 := -1 }
  if ec.failed then
    let errors := onError ec launch.inits reply.errno
    { ec, child := some child, log := closed ++ errors.log ++ (pgWait.destroy ++ pg.destroy) }
  else
    -- the read end of the second pipe is swapped out of its guard, into the process
    let pgWait := { pgWait with p0 := -1 }
    { ec, child := some child
      log := closed ++ (pgWait.destroy ++ pg.destroy) ++ (onSuccess launch.inits reply.errno).log }

/-- `pipe_fork_launcher::operator()` after build_argv_. -/
def launch (launch : Launch) (argv : List (Option Nat)) (self : Launcher) : Launcher × Returned :=
  let os := launch.os
  match os.pipe with
  | .error error => (self, { ec := .system error.code, log := PipeGuard.destroy {} })
  | .ok pipe =>
    let pg : PipeGuard := ⟨pipe.read, pipe.write⟩
    match os.fcntl with
    | some error => (self, { ec := .system error.code, log := pg.destroy })
    | none =>
    -- the second pipe's guard has nothing to close before its pipe is open
    match os.waitPipe with
    | .error error => (self, { ec := .system error.code, log := pg.destroy })
    | .ok waitPipe =>
      let pgWait : PipeGuard := ⟨waitPipe.read, waitPipe.write⟩
      match os.waitFcntl with
      | some error => (self, { ec := .system error.code, log := pgWait.destroy ++ pg.destroy })
      | none =>
        let setup := onSetup launch.inits launch.errno
        let self := self.setUp setup
        if setup.ec.failed then
          let errors := onError setup.ec launch.inits setup.errno
          (self, { ec := setup.ec, log := errors.log ++ (pgWait.destroy ++ pg.destroy) })
        else
          let self :=
            { self with fdWhitelist := self.fdWhitelist ++ [pipe.write] ++ [waitPipe.write] }
          let errno := os.notifyFork setup.errno
          match os.fork with
          | .error error =>
            let forkErrors := onForkError setup.ec launch.inits (os.notifyFork error.code)
            let errors := onError setup.ec launch.inits forkErrors.errno
            ({ self with pid := -1 }, {
              ec := .system errors.errno
              log := forkErrors.log ++ errors.log ++ (pgWait.destroy ++ pg.destroy) })
          | .ok pid =>
            let self := { self with pid }
            let result :=
              setupAndExec os launch.inits self.fdWhitelist (forkedChild launch pipe waitPipe errno)
            (self, awaitExec launch pg pgWait setup.ec (os.notifyFork errno)
              ⟨argv, self.env, result, (result.execError launch.inits os.write).log⟩)

end PipeForkLauncher

namespace VforkLauncher

/-- The child of a vfork has no pipe; its table is a copy of the parent's. -/
def vforkedChild (launch : Launch) (errno : Int) : Child :=
  { errno, fds := openedFds launch.fds }

/-- The shared whitelist after the child: close_all_fds resets it. -/
def sharedWhitelist (fdWhitelist : List Int) : ChildResult → List Int
  | .execSetupFailed reply => fdWhitelist ++ reply.whitelisted
  | _ => [0, 1, 2]

/-- The shared ec after the child: clear when execve did not return, otherwise
`ec.assign(errno, system_category())` behind it. -/
def sharedEc (result : ChildResult) : ErrorCode :=
  match result.error with
  | none => .clear
  | some _ => .system result.child.errno

/-- `vfork_launcher::operator()` after build_argv_. -/
def launch (launch : Launch) (argv : List (Option Nat)) (self : Launcher) : Launcher × Returned :=
  let os := launch.os
  let setup := onSetup launch.inits launch.errno
  let self := self.setUp setup
  if setup.ec.failed then
    let errors := onError setup.ec launch.inits setup.errno
    (self, { ec := setup.ec, log := errors.log })
  else
    let errno := os.notifyFork setup.errno
    match os.fork with
    | .error error =>
      let forkErrors := onForkError setup.ec launch.inits (os.notifyFork error.code)
      let errors := onError setup.ec launch.inits forkErrors.errno
      ({ self with pid := -1 }, { ec := .system errors.errno, log := forkErrors.log ++ errors.log })
    | .ok pid =>
      let result := setupAndExec os launch.inits self.fdWhitelist (vforkedChild launch errno)
      let exited := result.execError launch.inits id
      let child : ChildRun := ⟨argv, self.env, result, exited.log⟩
      -- the parent continues with what the child left in the shared memory
      let self := { self with pid, fdWhitelist := sharedWhitelist self.fdWhitelist result }
      let ec := sharedEc result
      let errno := os.notifyFork exited.errno
      if ec.failed then
        let errors := onError ec launch.inits errno
        (self, {
          ec, child := some child
          log := errors.log ++ reap pid os.interrupts errors.errno })
      else
        (self, { ec, child := some child, log := (onSuccess launch.inits errno).log })

end VforkLauncher

namespace ForkAndForgetLauncher

def forkedChild (launch : Launch) (errno : Int) : Child :=
  { errno := launch.os.notifyFork errno, fds := openedFds launch.fds }

/-- `fork_and_forget_launcher::operator()` after build_argv_. After fork the
parent tests the ec that on_setup left clear. -/
def launch (launch : Launch) (argv : List (Option Nat)) (self : Launcher) : Launcher × Returned :=
  let os := launch.os
  let setup := onSetup launch.inits launch.errno
  let self := self.setUp setup
  if setup.ec.failed then
    let errors := onError setup.ec launch.inits setup.errno
    (self, { ec := setup.ec, log := errors.log })
  else
    let errno := os.notifyFork setup.errno
    match os.fork with
    | .error error =>
      let forkErrors := onForkError setup.ec launch.inits (os.notifyFork error.code)
      -- a second on_fork_error in place of a first on_error
      let again := onForkError setup.ec launch.inits forkErrors.errno
      let errors := onError setup.ec launch.inits again.errno
      ({ self with pid := -1 },
        { ec := .system errors.errno, log := forkErrors.log ++ again.log ++ errors.log })
    | .ok pid =>
      let self := { self with pid }
      let result := setupAndExec os launch.inits self.fdWhitelist (forkedChild launch errno)
      let child : ChildRun := ⟨argv, self.env, result, (result.execError launch.inits id).log⟩
      let errno := os.notifyFork errno
      -- nothing has assigned ec since on_setup, so this is never taken
      if setup.ec.failed then
        let errors := onError setup.ec launch.inits errno
        (self, {
          ec := setup.ec, child := some child
          log := errors.log ++ reap pid os.interrupts errors.errno })
      else
        (self, { ec := setup.ec, child := some child, log := (onSuccess launch.inits errno).log })

end ForkAndForgetLauncher

inductive Kind where
  | default
  | pipeFork
  | vfork
  | forkAndForget
  deriving DecidableEq, Repr

def Kind.launch : Kind → Launch → List (Option Nat) → Launcher → Launcher × Returned
  | .default => DefaultLauncher.launch
  | .pipeFork => PipeForkLauncher.launch
  | .vfork => VforkLauncher.launch
  | .forkAndForget => ForkAndForgetLauncher.launch

/-! ## An uneventful launch -/

def firstPipe : Pipe := ⟨3, 4, by decide, by decide, by decide⟩

def secondPipe : Pipe := ⟨5, 6, by decide, by decide, by decide⟩

def ordinaryOs (execve : Option Errno) : Os where
  pipe := .ok firstPipe
  waitPipe := .ok secondPipe
  fork := .ok 100
  execve

/-- A parent with the descriptors below a bound. -/
def openBelow (bound : Int) : Table Nat :=
  fun number => if 0 ≤ number ∧ number < bound then some ⟨number.toNat, false⟩ else none

def launchOf (inits : List Initializer) (os : Os) : Launch where
  executable := 1
  args := .borrowed []
  inits
  errno := 0
  fds := openBelow 3
  os

end BoostProcess.V2.Posix
