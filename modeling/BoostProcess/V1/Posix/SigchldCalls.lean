import BoostProcess.V1.Posix.SigchldService

/-! sigchld_service: who is called, and with what.

The code knows a child by its pid only. As long as no other child gets the pid of a receiver that
may yet be called, what waitpid says of the pid is said of the child of the handler.
-/

set_option autoImplicit false

namespace BoostProcess.V1

open BoostProcess.V2 (Errno ErrorCode)
open Transition

/-- The call says of the last child that has had the pid what waitpid does, and that child is gone. -/
structure Call.Answers (kernel : Kernel) (pid : Nat) (call : Call) : Prop where
  free : kernel.free pid = true
  status : call.ec.failed = false →
    ∃ status, kernel.process (kernel.current pid) = some (.reaped status) ∧ call.status = status.status

theorem Call.Answers.failed {kernel next : Kernel} {pid handler : Nat} {status : Int} {err : Errno}
    (asked : kernel.waitpid pid = (next, .failed err)) : Answers next pid ⟨handler, status, .system err.code⟩ where
  free := Kernel.waitpid_failed asked
  status success := absurd (ErrorCode.failed_errno err) (by simp [success])

theorem Call.Answers.changed {kernel next : Kernel} {pid handler : Nat} {status : Int} {ec : ErrorCode}
    (asked : kernel.waitpid pid = (next, .changed status)) : Answers next pid ⟨handler, status, ec⟩ where
  free := (Kernel.waitpid_changed asked).1
  status _ := (Kernel.waitpid_changed asked).2

theorem Call.Answers.own {kernel : Kernel} {registered : List Forked} {pid : Nat} {call : Call}
    (answers : call.Answers kernel pid)
    (child : registered[call.handler]? = some (kernel.current pid)) (success : call.ec.failed = false) :
    call.Own kernel registered := by
  obtain ⟨status, reaped, same⟩ := answers.status success
  exact ⟨_, status, child, reaped, same⟩

namespace SigchldService

variable {service next : SigchldService}

/-! ## What the steps leave as it is -/

section
variable (pid handler : Nat) (service : SigchldService)

@[simp] theorem kernel_receive : (service.receive pid handler).kernel = service.kernel := by
  unfold receive
  split
  · exact kernel_signalWait .bound service
  · rfl

@[simp] theorem registered_receive : (service.receive pid handler).registered = service.registered := by
  unfold receive
  split
  · exact registered_signalWait .bound service
  · rfl

@[simp] theorem registered_asyncWait :
    (service.asyncWait pid).registered = service.registered ++ [service.kernel.current pid] := by
  unfold asyncWait
  dsimp only
  split
  · rfl
  · split
    · rfl
    · simp
  · simp

@[simp] theorem kernel_asyncWait : (service.asyncWait pid).kernel = (service.kernel.waitpid pid).1 := by
  unfold asyncWait
  dsimp only
  split
  · rfl
  · split
    · rfl
    · simp
  · simp

end

theorem runPosted_keeps {left : List Task} {task : Task}
    (ran : SigchldService.runPosted { service with posted := left } task = some next) :
    next.kernel = service.kernel ∧ next.registered = service.registered := by
  cases runPosted_ran ran with
  | complete => exact ⟨rfl, rfl⟩
  | postHandleSignal => exact ⟨rfl, rfl⟩
  | handleSignal idle => exact ⟨rfl, rfl⟩

theorem advance_keeps (moved : service.advance = some next) :
    next.registered = service.registered ∧
      (next.kernel = service.kernel ∨ ∃ pid result, service.kernel.waitpid pid = (next.kernel, result)) := by
  cases advance_advanced moved with
  | returns loop => exact ⟨rfl, .inl rfl⟩
  | aborts loop ahead failed => exact ⟨rfl, .inl rfl⟩
  | fails loop ahead success asked => exact ⟨rfl, .inr ⟨_, _, asked⟩⟩
  | changes loop ahead success asked => exact ⟨rfl, .inr ⟨_, _, asked⟩⟩
  | passes loop ahead success asked => exact ⟨rfl, .inr ⟨_, _, asked⟩⟩
  | abandons loop ahead failed => exact ⟨rfl, .inl rfl⟩
  | finishes loop ahead success =>
    split
    · exact ⟨rfl, .inl rfl⟩
    · exact ⟨registered_signalWait .posting _, .inl (kernel_signalWait .posting _)⟩

theorem deliver_keeps (service : SigchldService) :
    service.deliver.kernel = service.kernel ∧ service.deliver.registered = service.registered := by
  unfold deliver
  split <;> exact ⟨rfl, rfl⟩

/-- A step leaves the handlers as they are, or is one more registration. -/
theorem registered_of_step {event : SigchldEvent} (taken : service.step event = some next) :
    next.registered = service.registered ∨
      ∃ pid, event = .asyncWait pid ∧ next.registered = service.registered ++ [service.kernel.current pid] := by
  cases step_moved taken with
  | world => exact .inl rfl
  | deliver => exact .inl service.deliver_keeps.2
  | asyncWait => exact .inr ⟨_, rfl, registered_asyncWait _ service⟩
  | cancel => exact .inl rfl
  | runPosted _ ran => exact .inl (runPosted_keeps ran).2
  | advance moved => exact .inl (advance_keeps moved).1

theorem asyncWait_of_step {pid : Nat} (taken : service.step (.asyncWait pid) = some next) : next = service.asyncWait pid := by
  simp only [step] at taken
  split at taken
  · cases taken
  · exact (Option.some.inj taken).symm

theorem getElem?_of_step {event : SigchldEvent} (taken : service.step event = some next) {handler : Nat} {child : Forked}
    (registered : service.registered[handler]? = some child) : next.registered[handler]? = some child := by
  obtain same | ⟨pid, -, longer⟩ := registered_of_step taken
  · rw [same]
    exact registered
  · obtain ⟨bound, -⟩ := List.getElem?_eq_some_iff.mp registered
    rw [longer, List.getElem?_append_left bound]
    exact registered

theorem grows_of_step {event : SigchldEvent} (taken : service.step event = some next) : service.kernel.Grows next.kernel := by
  cases step_moved taken with
  | world grows => exact grows
  | deliver =>
    rw [service.deliver_keeps.1]
    exact .refl _
  | asyncWait =>
    rw [kernel_asyncWait]
    exact .waitpid rfl
  | cancel => exact .refl _
  | runPosted _ ran =>
    rw [(runPosted_keeps ran).1]
    exact .refl _
  | advance moved =>
    obtain ⟨-, same | ⟨pid, result, asked⟩⟩ := advance_keeps moved
    · rw [same]
      exact .refl _
    · exact .waitpid asked

/-- Only fork gives a number to another child. -/
theorem current_of_step {event : SigchldEvent} (taken : service.step event = some next) {pid : Nat} (other : event ≠ .spawn pid) :
    next.kernel.current pid = service.kernel.current pid := by
  cases step_moved taken with
  | world _ keeps => exact keeps pid other
  | deliver => rw [service.deliver_keeps.1]
  | asyncWait =>
    rw [kernel_asyncWait]
    exact Kernel.current_waitpid rfl pid
  | cancel => rfl
  | runPosted _ ran => rw [(runPosted_keeps ran).1]
  | advance moved =>
    obtain ⟨-, same | ⟨asks, result, asked⟩⟩ := advance_keeps moved
    · rw [same]
    · exact Kernel.current_waitpid asked pid

/-! ## Receivers that may yet be called -/

def awaited (service : SigchldService) : List Receiver :=
  if service.armed = 0 then [] else service.loop.kept ++ service.ahead

theorem mem_awaited {receiver : Receiver} :
    receiver ∈ service.awaited ↔ service.armed ≠ 0 ∧ (receiver ∈ service.loop.kept ∨ receiver ∈ service.ahead) := by
  unfold awaited
  split
  · rename_i idle
    simp [idle]
  · rename_i armed
    simp [armed]

theorem awaited_of_eq (armed : next.armed = service.armed) (loop : next.loop.kept = service.loop.kept)
    (ahead : next.ahead = service.ahead) : next.awaited = service.awaited := by
  unfold awaited
  rw [armed, loop, ahead]

theorem armed_complete (ec : ErrorCode) (service : SigchldService) : (service.complete ec).armed = service.armed := by
  unfold complete armed
  rw [List.countP_append, List.countP_map]
  have all : service.pending.countP (Task.handles ∘ (·.completed ec)) = service.pending.length := by
    simp [List.countP_eq_length]
  simp only [all, List.length_nil]
  omega

theorem awaited_deliver (service : SigchldService) : service.deliver.awaited = service.awaited := by
  unfold deliver
  split
  · rfl
  · exact awaited_of_eq (armed_complete .clear service) rfl rfl

theorem awaited_runPosted {index : Nat} {task : Task} (posted : service.posted[index]? = some task)
    (ran : SigchldService.runPosted { service with posted := service.posted.eraseIdx index } task = some next) :
    next.awaited = service.awaited := by
  have counts := (perm_of_posted posted).countP_eq Task.handles
  rw [List.countP_cons] at counts
  -- what the work counted for in `armed` goes on as posted work or as the loop
  cases runPosted_ran ran with
  | complete =>
    apply awaited_of_eq
    · simp only [armed, Task.handles, Bool.false_eq_true, if_false] at counts ⊢
      omega
    · rfl
    · rfl
  | postHandleSignal =>
    apply awaited_of_eq
    · simp only [armed, Task.handles, if_true, List.countP_append, List.countP_singleton] at counts ⊢
      omega
    · rfl
    · rfl
  | handleSignal idle =>
    apply awaited_of_eq
    · simp only [armed, idle, Task.handles, if_true, Loop.busy] at counts ⊢
      omega
    · simp [idle, Loop.kept]
    · rfl

theorem awaited_receive {pid handler : Nat} {receiver : Receiver}
    (member : receiver ∈ (service.receive pid handler).awaited) : receiver ∈ service.awaited ∨ receiver = ⟨pid, handler⟩ := by
  unfold receive at member
  split at member
  · -- nobody was waiting, so the new receiver is the only one
    rename_i empty
    obtain ⟨passed, ahead⟩ := List.append_eq_nil_iff.mp empty
    have kept : service.loop.kept = [] := by
      cases loop : service.loop with
      | idle => rfl
      | between ec visited =>
        rw [loop] at passed
        have visited : visited = [] := passed
        simp [Loop.kept, visited]
      | calling ec visited receiver => simp [loop, Loop.passed] at passed
    obtain ⟨-, none | new⟩ := mem_awaited.mp member
    · dsimp only at none
      rw [loop_signalWait, kept] at none
      exact absurd none List.not_mem_nil
    · dsimp only at new
      rw [ahead_signalWait, ahead] at new
      exact .inr (List.mem_singleton.mp new)
  · obtain ⟨armed, kept | here⟩ := mem_awaited.mp member
    · exact .inl (mem_awaited.mpr ⟨armed, .inl kept⟩)
    · cases List.mem_append.mp here with
      | inl ahead => exact .inl (mem_awaited.mpr ⟨armed, .inr ahead⟩)
      | inr new => exact .inr (List.mem_singleton.mp new)

theorem awaited_asyncWait {pid : Nat} {receiver : Receiver}
    (member : receiver ∈ (service.asyncWait pid).awaited) :
    receiver ∈ service.awaited ∨ receiver = ⟨pid, service.registered.length⟩ := by
  -- a call that is posted is no wait
  have posts (kernel : Kernel) (call : Call) : awaited { service with
      kernel := kernel, registered := service.registered ++ [service.kernel.current pid],
      posted := service.posted ++ [.complete call] } = service.awaited := by
    apply awaited_of_eq
    · simp [armed, Task.handles]
    · rfl
    · rfl
  cases asked : service.kernel.waitpid pid with
  | mk kernel result =>
    simp only [asyncWait, asked] at member
    cases result with
    | failed err =>
      rw [posts] at member
      exact .inl member
    | unchanged => exact @awaited_receive { service with
        kernel := kernel, registered := service.registered ++ [service.kernel.current pid] } _ _ _ member
    | changed status =>
      obtain ⟨-, taken, -, rfl⟩ := Kernel.waitpid_changed asked
      simp only [taken.ended, if_true, posts] at member
      exact .inl member

theorem awaited_advance (sound : service.Sound) (moved : service.advance = some next) {receiver : Receiver}
    (member : receiver ∈ next.awaited) : receiver ∈ service.awaited := by
  obtain ⟨armed, there⟩ := mem_awaited.mp member
  have busy (loop : service.loop.busy = 1) : service.armed ≠ 0 := by
    simp [SigchldService.armed, loop]
  -- a receiver that is called is one less
  have calls {ec : ErrorCode} {visited rest : List Receiver} {called : Receiver} (loop : service.loop = .between ec visited)
      (ahead : service.ahead = called :: rest)
      (there : receiver ∈ Loop.kept (.calling ec visited called) ∨ receiver ∈ rest) : receiver ∈ service.awaited := by
    apply mem_awaited.mpr
    refine ⟨busy (by rw [loop]; rfl), ?_⟩
    rw [loop, ahead]
    exact there.imp_right fun later => List.mem_cons_of_mem called later
  cases advance_advanced moved with
  | @returns ec visited called loop =>
    -- the receiver of the handler is marked, and does not wait
    apply mem_awaited.mpr
    refine ⟨busy (by rw [loop]; rfl), ?_⟩
    rw [loop]
    refine there.imp_left fun kept => ?_
    cases failed : ec.failed with
    | true => simp [Loop.kept, failed] at kept
    | false => simpa [Loop.kept, failed] using kept
  | aborts loop ahead failed => exact calls loop ahead there
  | fails loop ahead success asked => exact calls loop ahead there
  | changes loop ahead success asked => exact calls loop ahead there
  | @passes ec visited rest called kernel loop ahead success asked =>
    apply mem_awaited.mpr
    refine ⟨busy (by rw [loop]; rfl), ?_⟩
    rw [loop, ahead]
    cases there with
    | inr later => exact .inr (List.mem_cons_of_mem called later)
    | inl kept =>
      simp only [Loop.kept, success, if_false, List.filter_append, List.mem_append, Bool.false_eq_true] at kept ⊢
      cases kept with
      | inl before => exact .inl before
      | inr here => exact .inr (List.mem_singleton.mp (List.mem_of_mem_filter here) ▸ List.mem_cons_self)
  | abandons loop ahead failed =>
    -- behind a loop with an error nothing is armed any more
    have single := sound.single
    simp only [SigchldService.armed, loop, Loop.busy] at single
    exact absurd (by simp only [SigchldService.armed, Loop.busy]; omega) armed
  | @finishes ec visited loop ahead success =>
    have kept : receiver ∈ visited.filter (·.first ≠ 0) := by
      split at there
      · simpa [Loop.kept] using there
      · rw [loop_signalWait, ahead_signalWait] at there
        simpa [Loop.kept] using there
    apply mem_awaited.mpr
    refine ⟨busy (by rw [loop]; rfl), .inl ?_⟩
    rw [loop]
    simp only [Loop.kept, success, if_false, Bool.false_eq_true]
    exact kept

theorem awaited_of_step {event : SigchldEvent} (sound : service.Sound) (taken : service.step event = some next)
    {receiver : Receiver}
    (member : receiver ∈ next.awaited) :
    receiver ∈ service.awaited ∨ ∃ pid, event = .asyncWait pid ∧ receiver = ⟨pid, service.registered.length⟩ := by
  cases step_moved taken with
  | world => exact .inl member
  | deliver =>
    rw [awaited_deliver] at member
    exact .inl member
  | asyncWait => exact (awaited_asyncWait member).imp_right fun new => ⟨_, rfl, new⟩
  | cancel =>
    rw [cancel, awaited_of_eq (armed_complete operationAborted service) rfl rfl] at member
    exact .inl member
  | runPosted posted ran =>
    rw [awaited_runPosted posted ran] at member
    exact .inl member
  | advance moved => exact .inl (awaited_advance sound moved member)

/-! ## Handlers that are called -/

/-- The handlers whose receivers wait. -/
def waiting (service : SigchldService) : List Nat := (service.loop.kept ++ service.ahead).map Receiver.second

section
variable (wait : SignalWait) (service : SigchldService)

@[simp] theorem waiting_signalWait : (service.signalWait wait).waiting = service.waiting := by
  unfold waiting
  rw [loop_signalWait, ahead_signalWait]

@[simp] theorem results_signalWait : (service.signalWait wait).results = service.results := by
  unfold signalWait results
  split
  · simp
  · rfl

@[simp] theorem results_complete (ec : ErrorCode) : (service.complete ec).results = service.results := by
  simp [complete, results]

end

/-- A child is known by the number of its receiver as long as that may be called, and a call without
an error has the status of its own child. -/
structure Owned (service : SigchldService) : Prop where
  awaited : ∀ receiver ∈ service.awaited, service.registered[receiver.second]? = some (service.kernel.current receiver.first)
  own : ∀ call ∈ service.results, call.ec.failed = false → call.Own service.kernel service.registered

/-- What a step does to the handlers: those that wait go on or are called, and who is called anew
gets the error of the loop or an answer about its number. -/
structure Tells (service next : SigchldService) : Prop where
  waits : ∀ handler ∈ service.waiting, handler ∈ next.waiting ∨ handler ∈ next.results.map Call.handler
  keeps : ∀ call ∈ service.results, call ∈ next.results
  told : ∀ call ∈ next.results, call ∈ service.results ∨ (service.loop.failed = true ∧ call.ec.failed = true) ∨
    ∃ pid, (service.Owned → next.registered[call.handler]? = some (next.kernel.current pid)) ∧ call.Answers next.kernel pid

namespace Tells

theorem of_eq (waiting : next.waiting = service.waiting) (results : next.results = service.results) : service.Tells next where
  waits _ waits := .inl (waiting ▸ waits)
  keeps _ called := results ▸ called
  told _ called := .inl (results ▸ called)

theorem deliver (service : SigchldService) : service.Tells service.deliver := by
  unfold SigchldService.deliver
  split
  · exact .of_eq rfl rfl
  · exact .of_eq rfl (results_complete service .clear)

theorem runPosted {index : Nat} {task : Task} (posted : service.posted[index]? = some task)
    (ran : SigchldService.runPosted { service with posted := service.posted.eraseIdx index } task = some next) :
    service.Tells next := by
  have calls := ((perm_of_posted posted).filterMap Task.call?).append_right service.calls
  have of_perm (waiting : next.waiting = service.waiting) (results : next.results.Perm service.results) : service.Tells next :=
    ⟨fun _ waits => .inl (waiting ▸ waits), fun _ called => results.mem_iff.mpr called, fun _ called =>
      .inl (results.mem_iff.mp called)⟩
  cases runPosted_ran ran with
  | @complete call =>
    apply of_perm rfl
    apply List.Perm.trans _ calls
    unfold results
    rw [← List.append_assoc]
    exact List.perm_append_singleton call _
  | @postHandleSignal ec =>
    have none : [Task.handleSignal ec].filterMap Task.call? = [] := rfl
    apply of_perm rfl
    unfold results
    rw [List.filterMap_append, none, List.append_nil]
    exact calls
  | handleSignal idle =>
    apply of_perm
    · simp [waiting, idle, Loop.kept]
    · exact calls

/-- The call is posted. -/
theorem posts (service : SigchldService) {kernel : Kernel} {pid : Nat} {call : Call}
    (last : call.handler = service.registered.length)
    (same : kernel.current pid = service.kernel.current pid) (answers : call.Answers kernel pid) :
    service.Tells { service with
        kernel := kernel, registered := service.registered ++ [service.kernel.current pid],
        posted := service.posted ++ [.complete call] } ∧
      service.registered.length ∈ (results { service with
        kernel := kernel, registered := service.registered ++ [service.kernel.current pid],
        posted := service.posted ++ [.complete call] }).map Call.handler := by
  have longer : results { service with
      kernel := kernel, registered := service.registered ++ [service.kernel.current pid],
      posted := service.posted ++ [.complete call] } = service.posted.filterMap Task.call? ++ (call :: service.calls) := by
    simp [results, Task.call?]
  have member (other : Call) : other ∈ service.posted.filterMap Task.call? ++ (call :: service.calls) ↔
      other = call ∨ other ∈ service.results := by
    unfold results
    simp only [List.mem_append, List.mem_cons]
    tauto
  constructor
  · constructor
    · exact fun _ waits => .inl waits
    · intro other called
      rw [longer]
      exact (member other).mpr (.inr called)
    · intro other called
      rw [longer] at called
      cases (member other).mp called with
      | inr old => exact .inl old
      | inl new =>
        subst new
        refine .inr (.inr ⟨pid, fun _ => ?_, answers⟩)
        rw [last, same]
        exact List.getElem?_concat_length
  · rw [longer, List.mem_map]
    exact ⟨call, (member call).mpr (.inl rfl), last⟩

theorem receive (service : SigchldService) {pid : Nat} (kernel : Kernel) (registered : List Forked) (handler : Nat) :
    service.Tells (SigchldService.receive pid handler { service with kernel := kernel, registered := registered }) ∧
      handler ∈ (SigchldService.receive pid handler { service with kernel := kernel, registered := registered }).waiting := by
  have waiting (handler : Nat) (other : SigchldService) :
      (other.receive pid handler).waiting = other.waiting ++ [handler] := by
    unfold SigchldService.receive
    split
    · simp [SigchldService.waiting]
    · simp [SigchldService.waiting]
  have results (handler : Nat) (other : SigchldService) : (other.receive pid handler).results = other.results := by
    unfold SigchldService.receive
    split
    · exact results_signalWait .bound other
    · rfl
  constructor
  · constructor
    · intro handler waits
      rw [waiting]
      exact .inl (List.mem_append_left _ waits)
    · intro call called
      rw [results]
      exact called
    · intro call called
      rw [results] at called
      exact .inl called
  · rw [waiting]
    exact List.mem_append_right _ (List.mem_singleton.mpr rfl)

/-- A registration: its handler is called or waits. -/
theorem asyncWait (service : SigchldService) (pid : Nat) :
    service.Tells (service.asyncWait pid) ∧
      (service.registered.length ∈ (service.asyncWait pid).waiting ∨
        service.registered.length ∈ (service.asyncWait pid).results.map Call.handler) := by
  cases asked : service.kernel.waitpid pid with
  | mk kernel result =>
    have same := Kernel.current_waitpid asked pid
    simp only [SigchldService.asyncWait, asked]
    cases result with
    | failed err => exact (posts service rfl same (.failed asked)).imp_right .inr
    | unchanged => exact (receive service kernel _ _).imp_right .inl
    | changed status =>
      obtain ⟨-, taken, -, rfl⟩ := Kernel.waitpid_changed asked
      simp only [taken.ended, if_true]
      exact (posts service rfl same (.changed asked)).imp_right .inr

/-- A receiver is called in the loop. -/
theorem call {ec result : ErrorCode} {visited rest : List Receiver} {receiver : Receiver} {status : Int} {kernel : Kernel}
    (loop : service.loop = .between ec visited) (ahead : service.ahead = receiver :: rest)
    (told : ec.failed = true ∧ result.failed = true ∨
      (service.Owned → service.registered[receiver.second]? = some (kernel.current receiver.first)) ∧
        Call.Answers kernel receiver.first ⟨receiver.second, status, result⟩) :
    service.Tells (SigchldService.call { service with kernel := kernel } ec visited rest receiver status result) := by
  have member (other : Call) :
      other ∈ service.posted.filterMap Task.call? ++ (service.calls ++ [⟨receiver.second, status, result⟩]) ↔
      other ∈ service.results ∨ other = ⟨receiver.second, status, result⟩ := by
    unfold results
    simp only [List.mem_append, List.mem_singleton]
    tauto
  constructor
  · intro handler waits
    unfold waiting at waits
    rw [loop, ahead, List.map_append, List.map_cons] at waits
    cases List.mem_append.mp waits with
    | inl passed =>
      left
      unfold waiting
      rw [List.map_append]
      exact List.mem_append_left _ passed
    | inr waits =>
      cases List.mem_cons.mp waits with
      | inl here => exact .inr (List.mem_map.mpr ⟨_, (member _).mpr (.inr rfl), here.symm⟩)
      | inr later =>
        left
        unfold waiting
        rw [List.map_append]
        exact List.mem_append_right _ later
  · exact fun call called => (member call).mpr (.inl called)
  · intro call called
    cases (member call).mp called with
    | inl old => exact .inl old
    | inr new =>
      subst new
      refine .inr (told.imp ?_ fun answered => ⟨receiver.first, answered⟩)
      rw [loop]
      exact fun failed => failed

theorem advance (sound : service.Sound) (moved : service.advance = some next) : service.Tells next := by
  -- the number of a receiver that is asked about is still that of its child, since it was waiting until now
  have current {ec : ErrorCode} {visited rest : List Receiver} {receiver : Receiver} {kernel : Kernel} {result : WaitPid}
      (loop : service.loop = .between ec visited) (ahead : service.ahead = receiver :: rest)
      (asked : service.kernel.waitpid receiver.first = (kernel, result)) (owned : service.Owned) :
      service.registered[receiver.second]? = some (kernel.current receiver.first) := by
    have armed : service.armed ≠ 0 := by simp [armed, loop, Loop.busy]
    rw [Kernel.current_waitpid asked]
    exact owned.awaited receiver (mem_awaited.mpr ⟨armed, .inr (ahead ▸ List.mem_cons_self)⟩)
  cases advance_advanced moved with
  | @returns ec visited receiver loop =>
    apply of_eq
    · cases failed : ec.failed with
      | true => simp [waiting, loop, Loop.kept, failed]
      | false => simp [waiting, loop, Loop.kept, failed]
    · rfl
  | aborts loop ahead failed => exact .call loop ahead (.inl ⟨failed, failed⟩)
  | fails loop ahead success asked => exact .call loop ahead (.inr ⟨current loop ahead asked, .failed asked⟩)
  | changes loop ahead success asked => exact .call loop ahead (.inr ⟨current loop ahead asked, .changed asked⟩)
  | @passes ec visited rest receiver kernel loop ahead success asked =>
    -- a receiver has a pid other than 0, so it is kept
    have known := sound.known receiver (ahead ▸ List.mem_cons_self)
    apply Tells.of_eq
    · simp [waiting, loop, ahead, Loop.kept, success, known.1]
    · rfl
  | abandons loop ahead failed =>
    -- a loop with an error keeps nobody
    constructor
    · intro handler waits
      simp [waiting, loop, ahead, Loop.kept, failed] at waits
    · exact fun _ called => called
    · exact fun _ called => .inl called
  | @finishes ec visited loop ahead success =>
    have same : waiting { service with loop := .idle, ahead := visited.filter (·.first ≠ 0) } = service.waiting := by
      simp [waiting, loop, ahead, Loop.kept, success]
    split
    · exact .of_eq same rfl
    · apply Tells.of_eq
      · rw [waiting_signalWait]
        exact same
      · exact results_signalWait .posting _

end Tells

theorem tells_of_step {event : SigchldEvent} (sound : service.Sound) (taken : service.step event = some next) :
    service.Tells next := by
  cases step_moved taken with
  | world => exact .of_eq rfl rfl
  | deliver => exact .deliver service
  | asyncWait => exact (Tells.asyncWait service _).1
  | cancel => exact .of_eq rfl (results_complete service _)
  | runPosted posted ran => exact .runPosted posted ran
  | advance moved => exact .advance sound moved

/-- A fork that does not give the number of a receiver to another child. -/
def KeepsNumbers (service : SigchldService) : SigchldEvent → Prop
  | .spawn pid => ∀ receiver ∈ service.awaited, receiver.first ≠ pid
  | _ => True

instance (service : SigchldService) : (event : SigchldEvent) → Decidable (service.KeepsNumbers event)
  | .spawn pid => inferInstanceAs (Decidable (∀ receiver ∈ service.awaited, receiver.first ≠ pid))
  | .exits _ _ | .otherReaper _ | .raise | .deliver | .asyncWait _ | .cancel | .runPosted _ | .advance => .isTrue trivial

theorem Owned.start (kernel : Kernel) : Owned (SigchldService.start kernel) where
  awaited _ member := absurd member List.not_mem_nil
  own _ member := absurd member List.not_mem_nil

theorem Owned.step {event : SigchldEvent} (sound : service.Sound) (owned : service.Owned) (keeps : service.KeepsNumbers event)
    (taken : service.step event = some next) : next.Owned := by
  constructor
  · intro receiver member
    obtain old | ⟨pid, rfl, rfl⟩ := awaited_of_step sound taken member
    · -- a receiver from before: only a fork could give its number away, and this one does not
      have other : event ≠ .spawn receiver.first := by
        rintro rfl
        exact keeps receiver old rfl
      rw [current_of_step taken other]
      exact getElem?_of_step taken (owned.awaited receiver old)
    · -- the registration takes the child that has the number now
      rw [current_of_step taken (by simp), asyncWait_of_step taken, registered_asyncWait]
      exact List.getElem?_concat_length
  · intro call member success
    obtain old | ⟨-, failed⟩ | ⟨pid, child, answers⟩ := (tells_of_step sound taken).told call member
    · obtain ⟨child, status, registered, reaped, same⟩ := owned.own call old success
      exact ⟨child, status, getElem?_of_step taken registered, (grows_of_step taken).reaped reaped, same⟩
    · rw [success] at failed
      cases failed
    · exact answers.own (child owned) success

theorem Owned.preserved : Preserves SigchldService.step KeepsNumbers (fun service => service.Sound ∧ service.Owned) := by
  intro service event next state keeps taken
  obtain ⟨sound, owned⟩ := state
  exact ⟨Sound.preserved service event next sound trivial taken, owned.step sound keeps taken⟩

end SigchldService
end BoostProcess.V1
