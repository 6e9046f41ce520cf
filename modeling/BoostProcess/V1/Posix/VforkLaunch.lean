import BoostProcess.V1.Posix.Executor

/-! executor::invoke with vfork: the child shares the executor with its parent, which goes on when the
child has a new image or is gone.

An error of the child is there in `_ec`, the last one. The child object exists before the parent looks at
it, so it is destroyed on every way out that does not return it. With ignore_error nobody looks.
-/

set_option autoImplicit false

namespace BoostProcess.V1.Posix.VforkLaunch

inductive ChildState where
  | running
  | zombie
  | reaped
  deriving DecidableEq, Repr

/-- What the system does meanwhile: before which call of waitpid the program exits, and whether a signal
interrupts the one that blocks. -/
structure Schedule where
  exits : Nat → Bool
  interrupted : Bool

/-- The child before the call of waitpid with the number. -/
def Schedule.at (schedule : Schedule) (call : Nat) : ChildState → ChildState
  | .running => if schedule.exits call then .zombie else .running
  | child => child

/-- `waitpid(pid, &status, WNOHANG)`; it returns 0 only for a child that runs. -/
def waitNoHang (schedule : Schedule) (call : Nat) (child : ChildState) : ChildState :=
  match schedule.at call child with
  | .running => .running
  | .zombie | .reaped => .reaped

/-- `::kill(p.pid, SIGKILL)` and `::waitpid(p.pid, &status, 0)` -/
def killAndWait (schedule : Schedule) : ChildState := if schedule.interrupted then .zombie else .reaped

/-- `~child()`: running, and terminate, which calls running once more. -/
def destroy (schedule : Schedule) (call : Nat) (child : ChildState) : ChildState :=
  match waitNoHang schedule call child with
  | .running =>
    match waitNoHang schedule (call + 1) .running with
    | .running => killAndWait schedule
    | ended => ended
  | ended => ended

def forkFailed : List UInt8 := "fork() failed".toList.map fun c => UInt8.ofNat c.toNat

structure Outcome where
  /-- What is thrown, or what on_error gets. -/
  reported : Option RaisedError
  /-- A child object that is valid is returned. -/
  returned : Bool
  child : Option ChildState
  deriving DecidableEq

variable (launch : Launch) (schedule : Schedule)

/-- What set_error in the parent comes to: it throws, or the last one stays in `_ec`. -/
def raised (errors : List RaisedError) : Option RaisedError :=
  if launch.hasErrorHandler then errors.getLast? else errors.head?

/-- `_ec` when the parent goes on. -/
def childError : Option RaisedError :=
  match launch.execve with
  | none => launch.onExecSetup.getLast?
  | some ec => (launch.onExecSetup ++ ⟨ec, execFailed⟩ :: launch.onExecError).getLast?

/-- The child when the parent goes on. -/
def vforked : ChildState := if launch.execve.isSome then .zombie else .running

/-- `invoke(true_, true_)`, with ignore_error: set_error does nothing, so `_ec` stays clear. -/
def invokeIgnoring : Outcome :=
  if launch.fork.isSome then ⟨none, false, none⟩ else ⟨none, true, some (vforked launch)⟩

/-- `invoke(false_, true_)` -/
def invoke : Outcome :=
  match raised launch launch.onSetup with
  | some error => ⟨some error, false, none⟩
  | none =>
    match launch.fork with
    -- `_ec` is assigned here, set_error is not called
    | some ec => ⟨if launch.hasErrorHandler then some ⟨ec, forkFailed⟩ else none, false, none⟩
    | none =>
      match childError launch with
      | some error =>
        if launch.hasErrorHandler then
          ⟨some error, false, some (destroy schedule 1 (waitNoHang schedule 0 (vforked launch)))⟩
        else ⟨some error, false, some (destroy schedule 0 (vforked launch))⟩
      | none =>
        match raised launch launch.onSuccess with
        | some error => ⟨some error, false, some (destroy schedule 0 (vforked launch))⟩
        | none => ⟨none, true, some (vforked launch)⟩

/-! ## What is left of the child -/

variable {launch schedule} {call : Nat} {child : ChildState}

theorem waitNoHang_cases (schedule : Schedule) (call : Nat) (child : ChildState) :
    (child = .running ∧ waitNoHang schedule call child = .running) ∨ waitNoHang schedule call child = .reaped := by
  unfold waitNoHang Schedule.at
  cases child with
  | running =>
    cases schedule.exits call with
    | false => exact .inl ⟨rfl, rfl⟩
    | true => exact .inr rfl
  | zombie => exact .inr rfl
  | reaped => exact .inr rfl

/-- A child whose object is destroyed is reaped, unless it is killed and the wait for that is interrupted. -/
theorem destroy_cases (schedule : Schedule) (call : Nat) (child : ChildState) :
    destroy schedule call child = .reaped ∨
      (child = .running ∧ schedule.interrupted = true ∧ destroy schedule call child = .zombie) := by
  unfold destroy
  obtain ⟨rfl, runs⟩ | ended := waitNoHang_cases schedule call child
  · rw [runs]
    dsimp only
    obtain ⟨-, still⟩ | ended := waitNoHang_cases schedule (call + 1) .running
    · rw [still]
      unfold killAndWait
      cases interrupted : schedule.interrupted with
      | false => exact .inl rfl
      | true => exact .inr ⟨rfl, rfl, rfl⟩
    · rw [ended]
      exact .inl rfl
  · rw [ended]
    exact .inl rfl

theorem vforked_running (runs : vforked launch = .running) : launch.execve = none := by
  unfold vforked at runs
  split at runs
  · cases runs
  · rename_i replaced
    exact Option.not_isSome_iff_eq_none.mp replaced

theorem raised_eq_none {errors : List RaisedError} : raised launch errors = none ↔ errors = [] := by
  unfold raised
  split
  · exact List.getLast?_eq_none_iff
  · exact List.head?_eq_none_iff

theorem childError_eq_none : childError launch = none ↔ launch.execve = none ∧ launch.onExecSetup = [] := by
  unfold childError
  cases launch.execve with
  | none => simp
  | some ec => simp

/-- Every way through a launch: what failed, what is reported and what is left. -/
inductive Course (launch : Launch) (schedule : Schedule) : Outcome → Prop
  | setup (error : RaisedError) (failed : launch.onSetup ≠ []) : Course launch schedule ⟨some error, false, none⟩
  | fork (ec : Failure) (error : Option RaisedError) (failed : launch.fork = some ec) (quiet : launch.onSetup = [])
      (told : error = none ↔ launch.hasErrorHandler = false) : Course launch schedule ⟨error, false, none⟩
  | child (error : RaisedError) (state : ChildState) (forked : launch.fork = none) (found : childError launch = some error)
      (left : state = .reaped ∨ launch.execve = none ∧ schedule.interrupted = true ∧ state = .zombie) :
      Course launch schedule ⟨some error, false, some state⟩
  | success (error : RaisedError) (state : ChildState) (forked : launch.fork = none) (replaced : launch.execve = none)
      (failed : launch.onSuccess ≠ []) (left : state = .reaped ∨ schedule.interrupted = true ∧ state = .zombie) :
      Course launch schedule ⟨some error, false, some state⟩
  | returned (setup : launch.onSetup = []) (forked : launch.fork = none) (replaced : launch.execve = none)
      (quiet : launch.onExecSetup = []) (succeeded : launch.onSuccess = []) : Course launch schedule ⟨none, true, some .running⟩

theorem invoke_course (launch : Launch) (schedule : Schedule) : Course launch schedule (invoke launch schedule) := by
  unfold invoke
  cases setup : raised launch launch.onSetup with
  | some error =>
    apply Course.setup
    intro quiet
    rw [raised_eq_none.mpr quiet] at setup
    cases setup
  | none =>
    have quiet := raised_eq_none.mp setup
    dsimp only
    cases failed : launch.fork with
    | some ec =>
      apply Course.fork ec _ failed quiet
      cases launch.hasErrorHandler <;> simp
    | none =>
      dsimp only
      cases found : childError launch with
      | some error =>
        dsimp only
        split
        · apply Course.child error _ failed found
          -- the waitpid before the destructor may have reaped the child
          obtain ⟨runs, still⟩ | ended := waitNoHang_cases schedule 0 (vforked launch)
          · rw [still]
            exact (destroy_cases schedule 1 .running).imp_right fun left => ⟨vforked_running runs, left.2⟩
          · rw [ended]
            exact (destroy_cases schedule 1 .reaped).imp_right fun left => absurd left.1 nofun
        · apply Course.child error _ failed found
          exact (destroy_cases schedule 0 _).imp_right fun left => ⟨vforked_running left.1, left.2⟩
      | none =>
        obtain ⟨replaced, silent⟩ := childError_eq_none.mp found
        have runs : vforked launch = .running := by
          unfold vforked
          rw [replaced]
          rfl
        dsimp only
        cases success : raised launch launch.onSuccess with
        | some error =>
          apply Course.success error _ failed replaced
          · intro none
            rw [raised_eq_none.mpr none] at success
            cases success
          · exact (destroy_cases schedule 0 _).imp_right And.right
        | none =>
          rw [runs]
          exact Course.returned quiet failed replaced silent (raised_eq_none.mp success)

/-- Without a look at errors a launch returns the child of every fork, also one that has ended since execve failed. -/
theorem invokeIgnoring_eq (launch : Launch) :
    (invokeIgnoring launch).reported = none ∧ ((invokeIgnoring launch).returned = true ↔ launch.fork = none) ∧
      (launch.fork = none → ((invokeIgnoring launch).child = some .running ↔ launch.execve = none) ∧
        ((invokeIgnoring launch).child = some .zombie ↔ launch.execve ≠ none)) ∧
      (launch.fork ≠ none → (invokeIgnoring launch).child = none) := by
  unfold invokeIgnoring
  cases launch.fork with
  | some ec => simp
  | none =>
    unfold vforked
    cases launch.execve with
    | none => simp
    | some ec => simp

/-- With vfork and without ignore_error a launch returns a child exactly if nothing failed, and otherwise an error is
reported, except that of a failed fork without an error handler. No child is left running that is not returned, and none
is left at all unless a signal interrupts the wait for a program that was killed. With ignore_error nothing is reported,
and a launch returns a child exactly if fork works; it runs exactly if execve works too, and has ended otherwise. -/
theorem returned_iff_nothing_failed (launch : Launch) (schedule : Schedule) :
    (((invoke launch schedule).returned = true ↔ launch.onSetup = [] ∧ launch.fork = none ∧ launch.onExecSetup = [] ∧
        launch.execve = none ∧ launch.onSuccess = []) ∧
      ((invoke launch schedule).reported = none ↔ (invoke launch schedule).returned = true ∨
        launch.onSetup = [] ∧ launch.fork ≠ none ∧ launch.hasErrorHandler = false) ∧
      ((invoke launch schedule).returned = false → (invoke launch schedule).child = none ∨
        (invoke launch schedule).child = some .reaped ∨
          launch.execve = none ∧ schedule.interrupted = true ∧ (invoke launch schedule).child = some .zombie)) ∧
      (invokeIgnoring launch).reported = none ∧ ((invokeIgnoring launch).returned = true ↔ launch.fork = none) ∧
      (launch.fork = none → ((invokeIgnoring launch).child = some .running ↔ launch.execve = none) ∧
        ((invokeIgnoring launch).child = some .zombie ↔ launch.execve ≠ none)) ∧
      (launch.fork ≠ none → (invokeIgnoring launch).child = none) := by
  refine ⟨?_, invokeIgnoring_eq launch⟩
  generalize same : invoke launch schedule = outcome
  have course := invoke_course launch schedule
  rw [same] at course
  cases course with
  | setup error failed => simp [failed]
  | fork ec error failed quiet told => simp [failed, quiet, told]
  | child error state forked found left =>
    have failed : ¬ (launch.execve = none ∧ launch.onExecSetup = []) := by
      rw [← childError_eq_none, found]
      nofun
    refine ⟨iff_of_false nofun fun all => failed ⟨all.2.2.2.1, all.2.2.1⟩, by simp [forked], fun _ => .inr ?_⟩
    exact left.imp (congrArg some) fun both => ⟨both.1, both.2.1, congrArg some both.2.2⟩
  | success error state forked replaced failed left =>
    refine ⟨iff_of_false nofun fun all => failed all.2.2.2.2, by simp [forked], fun _ => .inr ?_⟩
    exact left.imp (congrArg some) fun both => ⟨replaced, both.1, congrArg some both.2⟩
  | returned setup forked replaced quiet succeeded => simp [setup, forked, replaced, quiet, succeeded]

end BoostProcess.V1.Posix.VforkLaunch
