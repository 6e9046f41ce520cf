import BoostProcess.Library.Transition
import BoostProcess.V1.Posix.PidTable
import Mathlib.Data.List.Perm.Basic

/-! sigchld_service: many waits for children that share one wait for SIGCHLD.

The strand runs posted work one piece at a time. User code and the kernel move between any two
steps of it, so also while `_handle_signal` is in its loop.
-/

set_option autoImplicit false

namespace BoostProcess.V1

open BoostProcess.V2 (Errno ErrorCode ExitStatus processIsRunning)
open Transition

/-- An element of `_receivers`; a handler is known by the number of its registration. -/
structure Receiver where
  first : Nat
  second : Nat
  deriving DecidableEq

/-- A handler with its arguments. -/
structure Call where
  handler : Nat
  status : Int
  ec : ErrorCode
  deriving DecidableEq

/-- What waits on the signal set: the handler bound to the strand, or that which posts to it. -/
inductive SignalWait where
  | bound
  | posting
  deriving DecidableEq

inductive Task where
  | complete (call : Call)
  | handleSignal (ec : ErrorCode)
  | postHandleSignal (ec : ErrorCode)
  deriving DecidableEq

def SignalWait.completed (ec : ErrorCode) : SignalWait → Task
  | bound => .handleSignal ec
  | posting => .postHandleSignal ec

/-- Where `_handle_signal` is: what its iterator has passed, and the receiver that is called. -/
inductive Loop where
  | idle
  | between (ec : ErrorCode) (visited : List Receiver)
  | calling (ec : ErrorCode) (visited : List Receiver) (receiver : Receiver)
  deriving DecidableEq

def Loop.passed : Loop → List Receiver
  | idle => []
  | between _ visited => visited
  | calling _ visited receiver => visited ++ [receiver]

structure SigchldService where
  kernel : Kernel
  /-- A SIGCHLD that is not delivered yet; further ones coalesce with it. -/
  raised : Bool
  /-- Signals that came while nothing waited on the signal set. -/
  queued : Nat
  pending : List SignalWait
  posted : List Task
  loop : Loop
  /-- `_receivers` from the iterator on; all of them if no loop runs. -/
  ahead : List Receiver
  /-- The child that has the pid at every registration; the code keeps the pid. -/
  registered : List Forked
  calls : List Call

namespace SigchldService

def start (kernel : Kernel) : SigchldService := ⟨kernel, false, 0, [], [], .idle, [], [], []⟩

def receivers (service : SigchldService) : List Receiver := service.loop.passed ++ service.ahead

/-- `_signal_set.async_wait(...)`, which completes at once if a signal came before. -/
def signalWait (wait : SignalWait) (service : SigchldService) : SigchldService :=
  if 0 < service.queued then
    { service with queued := service.queued - 1, posted := service.posted ++ [wait.completed .clear] }
  else { service with pending := service.pending ++ [wait] }

/-- The pending waits on the signal set complete. -/
def complete (ec : ErrorCode) (service : SigchldService) : SigchldService :=
  { service with posted := service.posted ++ service.pending.map (·.completed ec), pending := [] }

section
variable (wait : SignalWait) (service : SigchldService)

@[simp] theorem kernel_signalWait : (service.signalWait wait).kernel = service.kernel := by
  unfold signalWait
  split <;> rfl

@[simp] theorem loop_signalWait : (service.signalWait wait).loop = service.loop := by
  unfold signalWait
  split <;> rfl

@[simp] theorem ahead_signalWait : (service.signalWait wait).ahead = service.ahead := by
  unfold signalWait
  split <;> rfl

@[simp] theorem registered_signalWait : (service.signalWait wait).registered = service.registered := by
  unfold signalWait
  split <;> rfl

@[simp] theorem receivers_signalWait : (service.signalWait wait).receivers = service.receivers := by
  unfold receivers
  rw [loop_signalWait, ahead_signalWait]

end

/-- The branch "still running" of `initiate_async_wait_op`. -/
def receive (pid handler : Nat) (service : SigchldService) : SigchldService :=
  let service := if service.receivers = [] then service.signalWait .bound else service
  { service with ahead := service.ahead ++ [⟨pid, handler⟩] }

def asyncWait (pid : Nat) (service : SigchldService) : SigchldService :=
  let handler := service.registered.length
  let (kernel, result) := service.kernel.waitpid pid
  let service := { service with kernel := kernel, registered := service.registered ++ [service.kernel.current pid] }
  match result with
  | .failed err => { service with posted := service.posted ++ [.complete ⟨handler, -1, .system err.code⟩] }
  | .changed status =>
    if processIsRunning status = false then
      { service with posted := service.posted ++ [.complete ⟨handler, status, .clear⟩] }
    else service.receive pid handler
  | .unchanged => service.receive pid handler

/-- A signal reaches the signal set. -/
def deliver (service : SigchldService) : SigchldService :=
  if service.pending = [] then { service with raised := false, queued := service.queued + 1 }
  else { service.complete .clear with raised := false }

/-- operation_aborted -/
def operationAborted : ErrorCode := .system 125

def cancel (service : SigchldService) : SigchldService := service.complete operationAborted

/-- The strand does not start `_handle_signal` while it runs. -/
def runPosted (service : SigchldService) (task : Task) : Option SigchldService :=
  match task with
  | .complete call => some { service with calls := service.calls ++ [call] }
  | .postHandleSignal ec => some { service with posted := service.posted ++ [.handleSignal ec] }
  | .handleSignal ec =>
    if service.loop = .idle then some { service with loop := .between (.system ec.value) [] } else none

/-- `r.second(status, ec)` in the loop. -/
def call (service : SigchldService) (ec : ErrorCode) (visited rest : List Receiver) (receiver : Receiver) (status : Int)
    (result : ErrorCode) : SigchldService :=
  { service with loop := .calling ec visited receiver, ahead := rest,
                 calls := service.calls ++ [⟨receiver.second, status, result⟩] }

/-- One step of `_handle_signal`: a receiver, the return of its handler, or what follows the loop. -/
def advance (service : SigchldService) : Option SigchldService :=
  match service.loop, service.ahead with
  | .idle, _ => none
  | .calling ec visited receiver, _ =>
    some { service with
      loop := .between ec (visited ++ [if ec.failed then receiver else { receiver with first := 0 }]) }
  | .between ec visited, receiver :: rest =>
    if ec.failed then some (service.call ec visited rest receiver (-1) ec)
    else
      let (kernel, result) := service.kernel.waitpid receiver.first
      let service := { service with kernel := kernel }
      match result with
      | .failed err => some (service.call ec visited rest receiver (-1) (.system err.code))
      | .changed status => some (service.call ec visited rest receiver status ec)
      | .unchanged => some { service with loop := .between ec (visited ++ [receiver]), ahead := rest }
  | .between ec visited, [] =>
    if ec.failed then some { service with loop := .idle, ahead := visited }
    else
      let kept := visited.filter (·.first ≠ 0)
      let service := { service with loop := .idle, ahead := kept }
      some (if kept = [] then service else service.signalWait .posting)

end SigchldService

inductive SigchldEvent where
  | spawn (pid : Nat)
  | exits (pid : Nat) (status : ExitStatus)
  /-- A waitpid of someone else. -/
  | otherReaper (pid : Nat)
  /-- A SIGCHLD for something that is not waited for. -/
  | raise
  | deliver
  | asyncWait (pid : Nat)
  | cancel
  | runPosted (index : Nat)
  | advance
  deriving DecidableEq

namespace SigchldService

def step (service : SigchldService) : SigchldEvent → Option SigchldService
  | .spawn pid => (service.kernel.fork pid).map fun kernel => { service with kernel := kernel }
  | .exits pid status => (service.kernel.exit pid status).map fun kernel => { service with kernel := kernel, raised := true }
  | .otherReaper pid => some { service with kernel := (service.kernel.waitpid pid).1 }
  | .raise => some { service with raised := true }
  | .deliver => if service.raised then some service.deliver else none
  | .asyncWait pid => if pid = 0 then none else some (service.asyncWait pid)
  | .cancel => some service.cancel
  | .runPosted index =>
    service.posted[index]?.bind fun task =>
      { service with posted := service.posted.eraseIdx index }.runPosted task
  | .advance => service.advance

/-- Nothing is left to run. -/
def Quiescent (service : SigchldService) : Prop := service.posted = [] ∧ service.loop = .idle

instance (service : SigchldService) : Decidable service.Quiescent := inferInstanceAs (Decidable (_ ∧ _))

/-- A cancel that finds no wait on the signal set. -/
def FindsNothing (service : SigchldService) (event : SigchldEvent) : Prop := event = .cancel → service.pending = []

instance (service : SigchldService) (event : SigchldEvent) : Decidable (service.FindsNothing event) :=
  inferInstanceAs (Decidable (_ → _))

/-- What the run of a piece of work does, where `left` is posted besides it. -/
inductive Ran (service : SigchldService) (left : List Task) : Task → SigchldService → Prop where
  | complete {call : Call} :
      Ran service left (.complete call) { service with posted := left, calls := service.calls ++ [call] }
  | postHandleSignal {ec : ErrorCode} :
      Ran service left (.postHandleSignal ec) { service with posted := left ++ [.handleSignal ec] }
  | handleSignal {ec : ErrorCode} (idle : service.loop = .idle) :
      Ran service left (.handleSignal ec) { service with posted := left, loop := .between (.system ec.value) [] }

theorem runPosted_ran {service next : SigchldService} {left : List Task} {task : Task}
    (ran : SigchldService.runPosted { service with posted := left } task = some next) : service.Ran left task next := by
  unfold runPosted at ran
  cases task with
  | complete call =>
    cases ran
    exact .complete
  | postHandleSignal ec =>
    cases ran
    exact .postHandleSignal
  | handleSignal ec =>
    dsimp only at ran
    split at ran
    · rename_i idle
      cases ran
      exact .handleSignal idle
    · cases ran

/-- The work that runs and the work that is left. -/
theorem perm_of_posted {service : SigchldService} {index : Nat} {task : Task} (posted : service.posted[index]? = some task) :
    (task :: service.posted.eraseIdx index).Perm service.posted := by
  obtain ⟨bound, rfl⟩ := List.getElem?_eq_some_iff.mp posted
  exact List.getElem_cons_eraseIdx_perm bound

/-- How `_handle_signal` can go on. -/
inductive Advanced (service : SigchldService) : SigchldService → Prop where
  | returns {ec : ErrorCode} {visited : List Receiver} {receiver : Receiver}
      (loop : service.loop = .calling ec visited receiver) :
      Advanced service { service with
        loop := .between ec (visited ++ [if ec.failed then receiver else { receiver with first := 0 }]) }
  | aborts {ec : ErrorCode} {visited rest : List Receiver} {receiver : Receiver} (loop : service.loop = .between ec visited)
      (ahead : service.ahead = receiver :: rest) (failed : ec.failed = true) :
      Advanced service (service.call ec visited rest receiver (-1) ec)
  | fails {ec : ErrorCode} {visited rest : List Receiver} {receiver : Receiver} {kernel : Kernel} {err : Errno}
      (loop : service.loop = .between ec visited) (ahead : service.ahead = receiver :: rest) (success : ec.failed = false)
      (asked : service.kernel.waitpid receiver.first = (kernel, .failed err)) :
      Advanced service
        (SigchldService.call { service with kernel := kernel } ec visited rest receiver (-1) (.system err.code))
  | changes {ec : ErrorCode} {visited rest : List Receiver} {receiver : Receiver} {kernel : Kernel} {status : Int}
      (loop : service.loop = .between ec visited) (ahead : service.ahead = receiver :: rest) (success : ec.failed = false)
      (asked : service.kernel.waitpid receiver.first = (kernel, .changed status)) :
      Advanced service (SigchldService.call { service with kernel := kernel } ec visited rest receiver status ec)
  | passes {ec : ErrorCode} {visited rest : List Receiver} {receiver : Receiver} {kernel : Kernel}
      (loop : service.loop = .between ec visited) (ahead : service.ahead = receiver :: rest) (success : ec.failed = false)
      (asked : service.kernel.waitpid receiver.first = (kernel, .unchanged)) :
      Advanced service { service with kernel := kernel, loop := .between ec (visited ++ [receiver]), ahead := rest }
  | abandons {ec : ErrorCode} {visited : List Receiver} (loop : service.loop = .between ec visited)
      (ahead : service.ahead = []) (failed : ec.failed = true) :
      Advanced service { service with loop := .idle, ahead := visited }
  | finishes {ec : ErrorCode} {visited : List Receiver} (loop : service.loop = .between ec visited)
      (ahead : service.ahead = []) (success : ec.failed = false) :
      Advanced service
        (if visited.filter (·.first ≠ 0) = [] then { service with loop := .idle, ahead := visited.filter (·.first ≠ 0) }
        else SigchldService.signalWait .posting { service with loop := .idle, ahead := visited.filter (·.first ≠ 0) })

theorem advance_advanced {service next : SigchldService} (moved : service.advance = some next) : service.Advanced next := by
  unfold advance at moved
  split at moved
  · cases moved
  · rename_i loop
    cases moved
    exact .returns loop
  · rename_i receiver rest loop ahead
    split at moved
    · rename_i failed
      cases moved
      exact .aborts loop ahead failed
    · rename_i success
      rw [Bool.not_eq_true] at success
      cases asked : service.kernel.waitpid receiver.first with
      | mk kernel result =>
        rw [asked] at moved
        cases result with
        | failed err =>
          cases moved
          exact .fails loop ahead success asked
        | changed status =>
          cases moved
          exact .changes loop ahead success asked
        | unchanged =>
          cases moved
          exact .passes loop ahead success asked
  · rename_i loop ahead
    split at moved
    · rename_i failed
      cases moved
      exact .abandons loop ahead failed
    · rename_i success
      rw [Bool.not_eq_true] at success
      cases moved
      exact .finishes loop ahead success

/-- How a step can move the service; all that moves only processes and the signal is one case. -/
inductive Moved (service : SigchldService) : SigchldEvent → SigchldService → Prop where
  | world {event : SigchldEvent} {kernel : Kernel} {raised : Bool} (grows : service.kernel.Grows kernel)
      (keeps : ∀ pid, event ≠ .spawn pid → kernel.current pid = service.kernel.current pid)
      (wakes : (∀ pid, service.kernel.Running pid → kernel.Running pid) ∧ (service.raised = true → raised = true) ∨
        raised = true) :
      Moved service event { service with kernel := kernel, raised := raised }
  | deliver : Moved service .deliver service.deliver
  | asyncWait {pid : Nat} (child : pid ≠ 0) : Moved service (.asyncWait pid) (service.asyncWait pid)
  | cancel : Moved service .cancel service.cancel
  | runPosted {index : Nat} {task : Task} {next : SigchldService} (posted : service.posted[index]? = some task)
      (ran : SigchldService.runPosted { service with posted := service.posted.eraseIdx index } task = some next) :
      Moved service (.runPosted index) next
  | advance {next : SigchldService} (moved : service.advance = some next) : Moved service .advance next

theorem step_moved {service next : SigchldService} {event : SigchldEvent} (taken : service.step event = some next) :
    service.Moved event next := by
  unfold step at taken
  cases event with
  | spawn pid =>
    obtain ⟨kernel, forked, rfl⟩ := Option.map_eq_some_iff.mp taken
    apply Moved.world (.fork forked)
    · intro other different
      rw [Kernel.current_fork forked, if_neg]
      rintro rfl
      exact different rfl
    · exact .inl ⟨fun _ => Kernel.fork_running forked, fun raised => raised⟩
  | exits pid status =>
    obtain ⟨kernel, exited, rfl⟩ := Option.map_eq_some_iff.mp taken
    apply Moved.world (.exit exited)
    · intro other _
      obtain ⟨rest, there, rfl⟩ := Kernel.exit_eq exited
      exact Kernel.current_update there other
    · exact .inr rfl
  | otherReaper pid =>
    cases taken
    apply Moved.world (.waitpid rfl)
    · exact fun other _ => Kernel.current_waitpid rfl other
    · exact .inl ⟨fun _ => Kernel.waitpid_running rfl, fun raised => raised⟩
  | raise =>
    cases taken
    exact .world (.refl _) (fun _ _ => rfl) (.inr rfl)
  | deliver =>
    dsimp only at taken
    split at taken
    · cases taken
      exact .deliver
    · cases taken
  | asyncWait pid =>
    dsimp only at taken
    split at taken
    · cases taken
    · rename_i child
      cases taken
      exact .asyncWait child
  | cancel =>
    cases taken
    exact .cancel
  | runPosted index =>
    obtain ⟨task, posted, ran⟩ := Option.bind_eq_some_iff.mp taken
    exact .runPosted posted ran
  | advance => exact .advance taken

end SigchldService

/-! ## What every run keeps -/

/-- Work that leads to `_handle_signal`. -/
def Task.handles : Task → Bool
  | complete _ => false
  | handleSignal _ | postHandleSignal _ => true

def Task.call? : Task → Option Call
  | complete call => some call
  | handleSignal _ | postHandleSignal _ => none

def Loop.busy : Loop → Nat
  | idle => 0
  | between _ _ | calling _ _ _ => 1

/-- The receivers behind the iterator that wait on. -/
def Loop.kept : Loop → List Receiver
  | idle => []
  | between ec visited | calling ec visited _ => if ec.failed then [] else visited.filter (·.first ≠ 0)

def Loop.failed : Loop → Bool
  | idle => false
  | between ec _ | calling ec _ _ => ec.failed

@[simp] theorem SignalWait.handles_completed (wait : SignalWait) (ec : ErrorCode) :
    (wait.completed ec).handles = true := by
  cases wait <;> rfl

@[simp] theorem SignalWait.call?_completed (wait : SignalWait) (ec : ErrorCode) : (wait.completed ec).call? = none := by
  cases wait <;> rfl

/-- The status of a call is what a waitpid took from the child of the handler. -/
def Call.Own (kernel : Kernel) (registered : List Forked) (call : Call) : Prop :=
  ∃ child status, registered[call.handler]? = some child ∧ kernel.process child = some (.reaped status) ∧
    call.status = status.status

/-- A receiver has the pid of its registration. -/
def Receiver.Known (registered : List Forked) (receiver : Receiver) : Prop :=
  receiver.first ≠ 0 ∧ ∃ child, registered[receiver.second]? = some child ∧ child.pid = receiver.first

theorem Receiver.Known.within {registered : List Forked} {receiver : Receiver} (known : receiver.Known registered) :
    receiver.second < registered.length := by
  obtain ⟨-, child, entry, -⟩ := known
  exact (List.getElem?_eq_some_iff.mp entry).1

namespace SigchldService

/-- The waits on the signal set, pending or on their way through `_handle_signal`. -/
def armed (service : SigchldService) : Nat :=
  service.pending.length + service.posted.countP Task.handles + service.loop.busy

/-- The handlers that `_handle_signal` may yet call. -/
def due (service : SigchldService) : List Nat :=
  if service.armed = 0 then [] else (service.loop.kept ++ service.ahead).map Receiver.second

/-- Calls that are posted or made. -/
def results (service : SigchldService) : List Call := service.posted.filterMap Task.call? ++ service.calls

def uses (service : SigchldService) (handler : Nat) : Nat :=
  service.due.count handler + (service.results.map Call.handler).count handler

structure Sound (service : SigchldService) : Prop where
  single : service.armed ≤ 1
  waited : service.armed ≠ 0 → service.receivers ≠ []
  fresh : service.pending ≠ [] → service.queued = 0
  known : ∀ receiver ∈ service.ahead, receiver.Known service.registered
  marked : ∀ receiver ∈ service.loop.passed,
    receiver.first = 0 ∧ service.loop.failed = false ∨ receiver.Known service.registered
  once : ∀ handler, service.uses handler ≤ if handler < service.registered.length then 1 else 0

namespace Sound

variable {service : SigchldService}

theorem start (kernel : Kernel) : Sound (SigchldService.start kernel) where
  single := Nat.zero_le 1
  waited armed := absurd rfl armed
  fresh pending := absurd rfl pending
  known _ member := absurd member List.not_mem_nil
  marked _ member := absurd member List.not_mem_nil
  once _ := Nat.zero_le _

theorem kernel (sound : service.Sound) (kernel : Kernel) (raised : Bool) :
    Sound { service with kernel := kernel, raised := raised } where
  single := sound.single
  waited := sound.waited
  fresh := sound.fresh
  known := sound.known
  marked := sound.marked
  once := sound.once

theorem exchanged (sound : service.Sound) {raised : Bool} {queued : Nat} {pending : List SignalWait} {posted : List Task}
    {calls : List Call}
    (same : pending.length + posted.countP Task.handles = service.pending.length + service.posted.countP Task.handles)
    (fresh : pending ≠ [] → queued = 0) (results : (posted.filterMap Task.call? ++ calls).Perm service.results) :
    Sound { service with raised := raised, queued := queued, pending := pending, posted := posted, calls := calls } := by
  have armed : armed { service with
      raised := raised, queued := queued, pending := pending, posted := posted, calls := calls } = service.armed := by
    unfold SigchldService.armed
    rw [same]
  constructor
  · rw [armed]
    exact sound.single
  · rw [armed]
    exact sound.waited
  · exact fresh
  · exact sound.known
  · exact sound.marked
  · intro handler
    have once := sound.once handler
    unfold uses due at once ⊢
    rw [armed]
    have counts : ((posted.filterMap Task.call? ++ calls).map Call.handler).count handler =
        (service.results.map Call.handler).count handler := (results.map _).count_eq handler
    exact counts ▸ once

theorem complete (sound : service.Sound) (ec : ErrorCode) (raised : Bool) :
    Sound { service.complete ec with raised := raised } := by
  unfold SigchldService.complete
  apply exchanged sound
  · rw [List.countP_append, List.countP_map]
    have all : service.pending.countP (Task.handles ∘ (·.completed ec)) = service.pending.length := by
      simp [List.countP_eq_length]
    simp only [all, List.length_nil]
    omega
  · exact fun pending => absurd rfl pending
  · have none : (service.pending.map (·.completed ec)).filterMap Task.call? = [] := by
      simp
    rw [List.filterMap_append, none, List.append_nil]
    exact List.Perm.refl _

theorem deliver (sound : service.Sound) : Sound service.deliver := by
  unfold SigchldService.deliver
  split
  · rename_i nothing
    apply exchanged sound rfl
    · exact fun pending => absurd nothing pending
    · exact List.Perm.refl _
  · exact sound.complete .clear false

theorem registers (sound : service.Sound) (child : Forked) :
    Sound { service with registered := service.registered ++ [child] } ∧
      uses { service with registered := service.registered ++ [child] } service.registered.length = 0 := by
  have grows {receiver : Receiver} (known : receiver.Known service.registered) :
      receiver.Known (service.registered ++ [child]) := by
    obtain ⟨nonzero, before, entry, same⟩ := known
    obtain ⟨bound, -⟩ := List.getElem?_eq_some_iff.mp entry
    refine ⟨nonzero, before, ?_, same⟩
    rw [List.getElem?_append_left bound]
    exact entry
  constructor
  · constructor
    · exact sound.single
    · exact sound.waited
    · exact sound.fresh
    · exact fun receiver member => grows (sound.known receiver member)
    · exact fun receiver member => (sound.marked receiver member).imp_right grows
    · intro handler
      apply Nat.le_trans (sound.once handler)
      dsimp only
      rw [List.length_append]
      split <;> split <;> omega
  · have once := sound.once service.registered.length
    rw [if_neg (Nat.lt_irrefl _)] at once
    exact Nat.le_zero.mp once

theorem posts (sound : service.Sound) {call : Call} (unused : service.uses call.handler = 0)
    (registered : call.handler < service.registered.length) :
    Sound { service with posted := service.posted ++ [.complete call] } := by
  have armed : armed { service with posted := service.posted ++ [.complete call] } = service.armed := by
    simp [SigchldService.armed, Task.handles]
  have results : (results { service with posted := service.posted ++ [.complete call] }).Perm (call :: service.results) := by
    unfold SigchldService.results
    rw [List.filterMap_append, List.append_assoc]
    exact List.perm_middle
  constructor
  · rw [armed]
    exact sound.single
  · rw [armed]
    exact sound.waited
  · exact sound.fresh
  · exact sound.known
  · exact sound.marked
  · intro handler
    have once := sound.once handler
    unfold uses due at once unused ⊢
    rw [armed, (results.map _).count_eq, List.map_cons, List.count_cons]
    by_cases same : call.handler = handler
    · subst same
      rw [if_pos registered]
      simp only [beq_self_eq_true, if_true]
      omega
    · simp only [beq_iff_eq, same, if_false]
      exact once

theorem puts (sound : service.Sound) {receiver : Receiver} (unused : service.uses receiver.second = 0)
    (known : receiver.Known service.registered) : Sound { service with ahead := service.ahead ++ [receiver] } where
  single := sound.single
  waited _ := by
    unfold receivers
    simp
  fresh := sound.fresh
  known other member := by
    cases List.mem_append.mp member with
    | inl old => exact sound.known other old
    | inr new => exact List.mem_singleton.mp new ▸ known
  marked := sound.marked
  once handler := by
    have once := sound.once handler
    have registered := known.within
    unfold uses due at once unused ⊢
    change (if service.armed = 0 then [] else
        (service.loop.kept ++ (service.ahead ++ [receiver])).map Receiver.second).count handler +
      (service.results.map Call.handler).count handler ≤ _
    split at once
    · rename_i idle
      rw [if_pos idle]
      exact once
    · rename_i armed
      rw [if_neg armed, ← List.append_assoc, List.map_append, List.count_append]
      rw [if_neg armed] at unused
      simp only [List.map_cons, List.map_nil, List.count_cons, List.count_nil]
      by_cases same : receiver.second = handler
      · subst same
        rw [if_pos registered]
        simp only [beq_self_eq_true, if_true]
        omega
      · simp only [beq_iff_eq, same, if_false]
        exact once

/-- The one wait is started while nobody waits but the receivers. -/
theorem signalWait (sound : service.Sound) (idle : service.armed = 0) (waits : service.receivers ≠ [])
    (unused : ∀ handler, ((service.loop.kept ++ service.ahead).map Receiver.second).count handler +
      (service.results.map Call.handler).count handler ≤ if handler < service.registered.length then 1 else 0)
    (wait : SignalWait) : Sound (service.signalWait wait) := by
  have nothing : service.pending = [] := by
    unfold SigchldService.armed at idle
    exact List.eq_nil_of_length_eq_zero (by omega)
  have armed : (service.signalWait wait).armed = 1 := by
    unfold SigchldService.armed at idle ⊢
    unfold SigchldService.signalWait
    split
    · simp only [List.countP_append, List.countP_singleton, SignalWait.handles_completed, if_true]
      omega
    · simp only [List.length_append, List.length_singleton]
      omega
  have results : (service.signalWait wait).results = service.results := by
    unfold SigchldService.results SigchldService.signalWait
    split
    · simp
    · rfl
  constructor
  · exact Nat.le_of_eq armed
  · intro _
    rw [receivers_signalWait]
    exact waits
  · unfold SigchldService.signalWait
    split
    · exact fun pending => absurd nothing pending
    · rename_i none
      exact fun _ => Nat.eq_zero_of_not_pos none
  · rw [ahead_signalWait, registered_signalWait]
    exact sound.known
  · rw [loop_signalWait, registered_signalWait]
    exact sound.marked
  · intro handler
    unfold uses due
    rw [armed, results, ahead_signalWait, loop_signalWait, registered_signalWait]
    exact unused handler

theorem receive (sound : service.Sound) {pid handler : Nat} (unused : service.uses handler = 0)
    (known : Receiver.Known service.registered ⟨pid, handler⟩) : Sound (service.receive pid handler) := by
  have longer := sound.puts unused known
  unfold SigchldService.receive
  split
  · rename_i empty
    obtain ⟨passed, ahead⟩ := List.append_eq_nil_iff.mp empty
    have idle : service.armed = 0 := by
      by_contra armed
      exact sound.waited armed empty
    have kept : service.loop.kept = [] := by
      unfold SigchldService.armed at idle
      cases loop : service.loop with
      | idle => rfl
      | between ec visited => simp [loop, Loop.busy] at idle
      | calling ec visited receiver => simp [loop, Loop.busy] at idle
    have same : { service.signalWait .bound with ahead := (service.signalWait .bound).ahead ++ [⟨pid, handler⟩] } =
        SigchldService.signalWait .bound { service with ahead := service.ahead ++ [⟨pid, handler⟩] } := by
      unfold SigchldService.signalWait
      split <;> rfl
    rw [same]
    apply longer.signalWait idle
    · unfold receivers
      simp
    · intro other
      have once := sound.once other
      have registered := known.within
      unfold uses due at once unused
      rw [if_pos idle] at once unused
      dsimp only
      rw [kept, ahead]
      change [handler].count other + (service.results.map Call.handler).count other ≤ _
      rw [List.count_singleton]
      by_cases same : handler = other
      · subst same
        rw [if_pos registered]
        simp only [beq_self_eq_true, if_true]
        omega
      · simp only [beq_iff_eq, same, if_false]
        omega
  · exact longer

theorem asyncWait (sound : service.Sound) {pid : Nat} (child : pid ≠ 0) : Sound (service.asyncWait pid) := by
  obtain ⟨registered, unused⟩ := sound.registers (service.kernel.current pid)
  have last : (service.registered ++ [service.kernel.current pid])[service.registered.length]? =
      some (service.kernel.current pid) := List.getElem?_concat_length
  have within : service.registered.length < (service.registered ++ [service.kernel.current pid]).length := by simp
  cases asked : service.kernel.waitpid pid with
  | mk kernel result =>
    have asks := registered.kernel kernel service.raised
    simp only [SigchldService.asyncWait, asked]
    cases result with
    | failed err => exact asks.posts unused within
    | unchanged => exact asks.receive unused ⟨child, _, last, rfl⟩
    | changed status =>
      obtain ⟨-, taken, -, rfl⟩ := Kernel.waitpid_changed asked
      simp only [taken.ended, if_true]
      exact asks.posts unused within

/-- A posted piece of work is run; `_handle_signal` starts with the first receiver. -/
theorem runPosted (sound : service.Sound) {index : Nat} {task : Task} {next : SigchldService}
    (posted : service.posted[index]? = some task)
    (ran : SigchldService.runPosted { service with posted := service.posted.eraseIdx index } task = some next) :
    Sound next := by
  have all := perm_of_posted posted
  have counts := all.countP_eq Task.handles
  have calls := (all.filterMap Task.call?).append_right service.calls
  rw [List.countP_cons] at counts
  cases runPosted_ran ran with
  | @complete call =>
    apply exchanged sound
    · simpa [Task.handles] using counts
    · exact sound.fresh
    · apply List.Perm.trans _ calls
      rw [← List.append_assoc]
      exact List.perm_append_singleton call _
  | @postHandleSignal ec =>
    apply exchanged sound
    · rw [List.countP_append]
      simpa [Task.handles] using counts
    · exact sound.fresh
    · have none : [Task.handleSignal ec].filterMap Task.call? = [] := rfl
      rw [List.filterMap_append, none, List.append_nil]
      exact calls
  | @handleSignal ec idle =>
    have armed : SigchldService.armed { service with
        posted := service.posted.eraseIdx index, loop := .between (.system ec.value) [] } = service.armed := by
      simp only [Task.handles, if_true] at counts
      simp only [SigchldService.armed, idle, Loop.busy]
      omega
    have kept : Loop.kept (.between (.system ec.value) []) = [] := by simp [Loop.kept]
    constructor
    · rw [armed]
      exact sound.single
    · rw [armed]
      intro waits
      have some := sound.waited waits
      unfold receivers at some ⊢
      rw [idle] at some
      exact some
    · exact sound.fresh
    · exact sound.known
    · exact fun _ member => absurd member List.not_mem_nil
    · intro handler
      have once := sound.once handler
      unfold uses due at once ⊢
      rw [armed]
      dsimp only
      rw [kept]
      rw [idle] at once
      have same : ((service.posted.eraseIdx index).filterMap Task.call? ++ service.calls).Perm service.results := calls
      exact (same.map Call.handler).count_eq handler ▸ once

/-- The loop moves on and is still in between or in a handler. -/
theorem moves (sound : service.Sound) {loop : Loop} {ahead : List Receiver} {calls : List Call}
    (was : service.loop.busy = 1) (busy : loop.busy = 1) (passed : loop.passed ≠ [])
    (later : ∀ receiver ∈ ahead, receiver ∈ service.ahead)
    (marked : ∀ receiver ∈ loop.passed, receiver.first = 0 ∧ loop.failed = false ∨ receiver.Known service.registered)
    (fewer : ∀ handler, ((loop.kept ++ ahead).map Receiver.second).count handler + (calls.map Call.handler).count handler ≤
      ((service.loop.kept ++ service.ahead).map Receiver.second).count handler +
        (service.calls.map Call.handler).count handler) :
    Sound { service with loop := loop, ahead := ahead, calls := calls } := by
  have armed : SigchldService.armed { service with loop := loop, ahead := ahead, calls := calls } = service.armed := by
    simp [SigchldService.armed, was, busy]
  have waits : service.armed ≠ 0 := by
    simp [SigchldService.armed, was]
  constructor
  · rw [armed]
    exact sound.single
  · intro _
    unfold receivers
    simp [passed]
  · exact sound.fresh
  · exact fun receiver member => sound.known receiver (later receiver member)
  · exact marked
  · intro handler
    have once := sound.once handler
    have fewer := fewer handler
    unfold uses due results at once ⊢
    rw [armed, if_neg waits]
    rw [if_neg waits] at once
    simp only [List.map_append, List.count_append] at once fewer ⊢
    omega

theorem call (sound : service.Sound) {ec result : ErrorCode} {visited rest : List Receiver} {receiver : Receiver}
    {status : Int} (loop : service.loop = .between ec visited) (ahead : service.ahead = receiver :: rest) :
    Sound (service.call ec visited rest receiver status result) := by
  have marked := sound.marked
  rw [loop] at marked
  apply sound.moves
  · rw [loop]
    rfl
  · rfl
  · simp [Loop.passed]
  · exact fun other member => ahead ▸ List.mem_cons_of_mem receiver member
  · intro other member
    cases List.mem_append.mp member with
    | inl passed => exact marked other passed
    | inr called => exact .inr (sound.known other (ahead ▸ List.mem_singleton.mp called ▸ List.mem_cons_self))
  · intro handler
    rw [loop, ahead]
    -- the handler is no longer due but called
    simp only [Loop.kept, List.map_append, List.map_cons, List.map_nil, List.count_append, List.count_cons, List.count_nil]
    omega

theorem passes (sound : service.Sound) {ec : ErrorCode} {visited rest : List Receiver} {receiver : Receiver}
    (loop : service.loop = .between ec visited) (ahead : service.ahead = receiver :: rest) (success : ec.failed = false) :
    Sound { service with loop := .between ec (visited ++ [receiver]), ahead := rest } := by
  have marked := sound.marked
  have known := sound.known receiver (ahead ▸ List.mem_cons_self)
  rw [loop] at marked
  apply sound.moves
  · rw [loop]
    rfl
  · rfl
  · simp [Loop.passed]
  · exact fun other member => ahead ▸ List.mem_cons_of_mem receiver member
  · intro other member
    cases List.mem_append.mp member with
    | inl passed => exact marked other passed
    | inr here => exact .inr (List.mem_singleton.mp here ▸ known)
  · intro handler
    have kept : Loop.kept (.between ec (visited ++ [receiver])) ++ rest = service.loop.kept ++ service.ahead := by
      simp [loop, ahead, Loop.kept, success, known.1]
    apply Nat.le_of_eq
    rw [kept]

/-- A handler returns; in the loop without an error its receiver is marked. -/
theorem returns (sound : service.Sound) {ec : ErrorCode} {visited : List Receiver} {receiver : Receiver}
    (loop : service.loop = .calling ec visited receiver) :
    Sound { service with
      loop := .between ec (visited ++ [if ec.failed then receiver else { receiver with first := 0 }]) } := by
  have marked := sound.marked
  rw [loop] at marked
  apply sound.moves
  · rw [loop]
    rfl
  · rfl
  · simp [Loop.passed]
  · exact fun other member => member
  · intro other member
    cases List.mem_append.mp member with
    | inl passed => exact marked other (List.mem_append_left _ passed)
    | inr here =>
      rw [List.mem_singleton] at here
      cases failed : ec.failed with
      | false =>
        rw [failed] at here
        exact .inl ⟨here ▸ rfl, failed⟩
      | true =>
        rw [failed] at here
        exact marked other (List.mem_append_right _ (List.mem_singleton.mpr here))
  · intro handler
    have kept : Loop.kept (.between ec (visited ++ [if ec.failed then receiver else { receiver with first := 0 }])) =
        service.loop.kept := by
      cases failed : ec.failed with
      | false => simp [loop, Loop.kept, failed]
      | true => simp [loop, Loop.kept, failed]
    apply Nat.le_of_eq
    rw [kept]

theorem abandons (sound : service.Sound) {ec : ErrorCode} {visited : List Receiver} (loop : service.loop = .between ec visited)
    (failed : ec.failed = true) : Sound { service with loop := .idle, ahead := visited } := by
  have idle : SigchldService.armed { service with loop := .idle, ahead := visited } = 0 := by
    have single := sound.single
    simp only [SigchldService.armed, loop, Loop.busy] at single ⊢
    omega
  constructor
  · rw [idle]
    exact Nat.zero_le 1
  · exact fun armed => absurd idle armed
  · exact sound.fresh
  · intro receiver member
    have marked := sound.marked receiver
    rw [loop] at marked
    cases marked member with
    | inl erased => simp [Loop.failed, failed] at erased
    | inr known => exact known
  · exact fun _ member => absurd member List.not_mem_nil
  · intro handler
    have once := sound.once handler
    unfold uses due at once ⊢
    rw [if_pos idle]
    exact Nat.le_trans (Nat.add_le_add_right (Nat.zero_le _) _) once

/-- The loop without an error ends; it waits again if a receiver is left. -/
theorem finishes (sound : service.Sound) {ec : ErrorCode} {visited : List Receiver} (loop : service.loop = .between ec visited)
    (ahead : service.ahead = []) (success : ec.failed = false) :
    Sound (if visited.filter (·.first ≠ 0) = [] then { service with loop := .idle, ahead := visited.filter (·.first ≠ 0) }
      else SigchldService.signalWait .posting { service with loop := .idle, ahead := visited.filter (·.first ≠ 0) }) := by
  have idle : SigchldService.armed { service with loop := .idle, ahead := visited.filter (·.first ≠ 0) } = 0 := by
    have single := sound.single
    simp only [SigchldService.armed, loop, Loop.busy] at single ⊢
    omega
  have busy : service.armed ≠ 0 := by
    simp [SigchldService.armed, loop, Loop.busy]
  have once (handler : Nat) : ((visited.filter (·.first ≠ 0)).map Receiver.second).count handler +
      (service.results.map Call.handler).count handler ≤ if handler < service.registered.length then 1 else 0 := by
    have once := sound.once handler
    unfold uses due at once
    rw [if_neg busy, loop, ahead] at once
    simpa [Loop.kept, success] using once
  have rests : Sound { service with loop := .idle, ahead := visited.filter (·.first ≠ 0) } := by
    constructor
    · rw [idle]
      exact Nat.zero_le 1
    · exact fun armed => absurd idle armed
    · exact sound.fresh
    · intro receiver member
      obtain ⟨passed, unmarked⟩ := List.mem_filter.mp member
      have marked := sound.marked receiver
      rw [loop] at marked
      cases marked passed with
      | inl erased => simp [erased.1] at unmarked
      | inr known => exact known
    · exact fun _ member => absurd member List.not_mem_nil
    · intro handler
      unfold uses due
      rw [if_pos idle]
      exact Nat.le_trans (Nat.add_le_add_right (Nat.zero_le _) _) (once handler)
  split
  · exact rests
  · rename_i left
    exact rests.signalWait idle left once _

theorem advance (sound : service.Sound) {next : SigchldService} (moved : service.advance = some next) : Sound next := by
  cases advance_advanced moved with
  | returns loop => exact sound.returns loop
  | aborts loop ahead failed => exact sound.call loop ahead
  | fails loop ahead success asked => exact (sound.kernel _ service.raised).call loop ahead
  | changes loop ahead success asked => exact (sound.kernel _ service.raised).call loop ahead
  | passes loop ahead success asked => exact (sound.kernel _ service.raised).passes loop ahead success
  | abandons loop ahead failed => exact sound.abandons loop failed
  | finishes loop ahead success => exact sound.finishes loop ahead success

theorem preserved : Preserves step (fun _ _ => True) Sound := by
  intro service event next sound _ taken
  cases step_moved taken with
  | world => exact sound.kernel _ _
  | deliver => exact sound.deliver
  | asyncWait child => exact sound.asyncWait child
  | cancel => exact sound.complete operationAborted service.raised
  | runPosted posted ran => exact sound.runPosted posted ran
  | advance moved => exact sound.advance moved

end Sound
end SigchldService
end BoostProcess.V1
