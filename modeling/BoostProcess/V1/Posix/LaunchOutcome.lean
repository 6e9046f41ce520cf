import BoostProcess.V1.Posix.Executor

/-! executor::invoke with fork: the launches that the parent reports and reaps in every schedule. -/

set_option autoImplicit false

namespace BoostProcess.V1.Posix

open Transition

namespace Launch

variable {launch : Launch}

/-- Nothing fails behind fork, and what fails before is reported. -/
def Quiet (launch : Launch) : Prop :=
  if launch.pipe.isSome then launch.hasErrorHandler = false
  else if launch.onSetup ≠ [] then True
  else if launch.fork.isSome then launch.hasErrorHandler = true
  else launch.onExecSetup = [] ∧ launch.execve = none ∧ launch.onSuccess = []

instance (launch : Launch) : Decidable launch.Quiet := by
  unfold Quiet
  infer_instance

/-- Behind a fork after which nothing fails: the child is replaced when the parent is at the end
of the pipe. -/
def Replacing (state : LaunchState) : Prop :=
  state.pipe = [] ∧
    ((state.parent = .forked ∨ state.parent = .readsHeader) ∧ state.child = some (.setup []) ∨
      (state.parent ≠ .start ∧ state.parent ≠ .reaps ∧ state.parent ≠ .returned true ∧
          (∀ code size, state.parent ≠ .readsMessage code size)) ∧
        (state.child = some .replaced ∨ state.child = some (.ended true)))

theorem preserves_replacing (execs : launch.execve = none) (succeeds : launch.onSuccess = []) :
    Preserves launch.step (fun _ _ => True) Replacing := by
  intro state event next replacing _ taken
  obtain ⟨parent, child, pipe⟩ := state
  obtain ⟨rfl, ⟨reads, rfl⟩ | ⟨⟨started, reaps, reports, message⟩, image⟩⟩ := replacing
  · cases event with
    | parent =>
      dsimp only at reads
      rcases reads with rfl | rfl
      · cases taken
        exact ⟨rfl, .inl ⟨.inr rfl, rfl⟩⟩
      · -- the child has the sink, so the parent waits
        simp [step, parentStep, readHeader, atEnd, ForkedChild.holdsSink] at taken
    | child =>
      simp only [step, childStep, execs, Option.some.injEq] at taken
      subst taken
      refine ⟨rfl, .inr ⟨?_, .inl rfl⟩⟩
      dsimp only at reads ⊢
      rcases reads with rfl | rfl <;> simp
    | imageEnds => simp [step] at taken
  · have gone : atEnd ⟨parent, child, []⟩ = true := by
      unfold atEnd
      dsimp only at image ⊢
      rcases image with rfl | rfl <;> rfl
    cases event with
    | parent =>
      cases parent with
      | start => exact absurd rfl started
      | forked =>
        cases taken
        exact ⟨rfl, .inr ⟨by simp, image⟩⟩
      | readsHeader =>
        simp only [step, parentStep, readHeader, gone, ne_eq, not_true_eq_false, if_false, if_true, Option.some.injEq] at taken
        subst taken
        exact ⟨rfl, .inr ⟨by simp, image⟩⟩
      | readsMessage code size => exact absurd rfl (message code size)
      | reaps => exact absurd rfl reaps
      | succeeds =>
        simp only [step, parentStep, succeed, succeeds, if_true, Option.some.injEq] at taken
        subst taken
        exact ⟨rfl, .inr ⟨by simp, image⟩⟩
      | returned reports => cases taken
    | child =>
      dsimp only at image
      rcases image with rfl | rfl <;> cases taken
    | imageEnds =>
      simp only [step] at taken
      split at taken
      · cases taken
        exact ⟨rfl, .inr ⟨⟨started, reaps, reports, message⟩, .inr rfl⟩⟩
      · cases taken

theorem Replacing.agrees {state : LaunchState} (replacing : Replacing state) : state.Agrees := by
  intro reports returned
  obtain ⟨-, ⟨reads, -⟩ | ⟨⟨-, -, silent, -⟩, image⟩⟩ := replacing
  · rw [returned] at reads
    simp at reads
  · cases reports with
    | true => exact absurd returned silent
    | false =>
      refine ⟨fun _ => ?_, nofun⟩
      rcases image with child | child <;> simp [child, ForkedChild.isReplaced]

theorem agrees_of_invoke (returns : launch.invoke start = ⟨.returned true, none, []⟩) {schedule : List LaunchEvent}
    {final : LaunchState} (reached : run launch.step start schedule = some final) : final.Agrees := by
  have preserved : Preserves launch.step (fun _ _ => True) (fun state => state = start ∨ state = ⟨.returned true, none, []⟩) := by
    rintro state event next (rfl | rfl) - taken
    · cases event with
      | parent =>
        cases taken
        exact .inr returns
      | child => cases taken
      | imageEnds => cases taken
    · cases event with
      | parent => cases taken
      | child => cases taken
      | imageEnds => cases taken
  rcases run_invariant preserved (.inl rfl) admits_true reached with rfl | rfl
  · intro reports returned
    cases returned
  · intro reports returned
    cases returned
    exact ⟨fun _ => by simp, fun _ => nofun⟩

theorem agrees_of_quiet (quiet : launch.Quiet) {schedule : List LaunchEvent} {final : LaunchState}
    (reached : run launch.step start schedule = some final) : final.Agrees := by
  unfold Quiet at quiet
  split at quiet
  · rename_i piped
    exact agrees_of_invoke (by simp [invoke, piped, quiet, start]) reached
  · rename_i piped
    split at quiet
    · rename_i prepared
      exact agrees_of_invoke (by simp [invoke, piped, prepared, start]) reached
    · rename_i prepared
      split at quiet
      · rename_i forked
        exact agrees_of_invoke (by simp [invoke, piped, prepared, forked, quiet, start]) reached
      · rename_i forked
        obtain ⟨setup, execs, succeeds⟩ := quiet
        have forks : launch.invoke start = ⟨.forked, some (.setup []), []⟩ := by
          simp [invoke, piped, prepared, forked, start, setupWrites, setup]
        have preserved : Preserves launch.step (fun _ _ => True) (fun state => state = start ∨ Replacing state) := by
          rintro state event next (rfl | replacing) - taken
          · cases event with
            | parent =>
              have invoked : launch.invoke start = next := Option.some.inj taken
              rw [← invoked, forks]
              exact .inr ⟨rfl, .inl ⟨.inl rfl, rfl⟩⟩
            | child => cases taken
            | imageEnds => cases taken
          · exact .inr (preserves_replacing execs succeeds state event next replacing trivial taken)
        rcases run_invariant preserved (.inl rfl) admits_true reached with rfl | replacing
        · intro reports returned
          cases returned
        · exact replacing.agrees

/-- Where the parent is back without a report of a launch that failed, or with one of a child that
was replaced or is not reaped. -/
theorem exists_not_agrees (loud : ¬ launch.Quiet) :
    ∃ schedule final, run launch.step start schedule = some final ∧ ¬ final.Agrees := by
  have silent (returns : launch.invoke start = ⟨.returned false, none, []⟩) :
      ∃ schedule final, run launch.step start schedule = some final ∧ ¬ final.Agrees := by
    refine ⟨[.parent], _, run_cons.mpr ⟨_, congrArg some returns, rfl⟩, fun agrees => ?_⟩
    have reports := ((agrees false rfl).1 rfl).mpr rfl
    cases reports
  unfold Quiet at loud
  split at loud
  · rename_i piped
    rw [Bool.not_eq_false] at loud
    exact silent (by simp [invoke, piped, loud, start])
  · rename_i piped
    split at loud
    · exact absurd trivial loud
    · rename_i prepared
      split at loud
      · rename_i forked
        rw [Bool.not_eq_true] at loud
        exact silent (by simp [invoke, piped, prepared, forked, loud, start])
      · rename_i forked
        rw [Option.not_isSome_iff_eq_none] at piped forked
        rw [not_not] at prepared
        by_cases fails : launch.onExecSetup ≠ [] ∨ launch.execve ≠ none
        · exact exists_unreaped piped prepared forked fails
        · rw [not_or, not_not, not_not] at fails
          obtain ⟨setup, execs⟩ := fails
          have raised : launch.onSuccess ≠ [] := fun none => loud ⟨setup, execs, none⟩
          refine ⟨[.parent, .child, .parent, .parent, .parent], ⟨.returned true, some (.reaped true), []⟩, ?_, fun agrees => ?_⟩
          · simp [run, step, parentStep, start, invoke, piped, prepared, forked, setupWrites, setup, childStep, execs,
              readHeader, atEnd, ForkedChild.holdsSink, succeed, raised, ForkedChild.isReplaced]
          · -- the child that was killed had its new image
            have silent := ((agrees true rfl).1 rfl).mp rfl
            cases silent

/-! ## A failed execve and an error handler -/

/-- Messages whose size is an int. -/
def Short (launch : Launch) : Prop :=
  ∀ error ∈ launch.onExecSetup ++ launch.onExecError, (cString error.msg).length + 1 < 2 ^ 31

/-- What a child that does not get a new image has left to write. -/
def Left (launch : Launch) (ec : Failure) (child : Option ForkedChild) (left : List (List UInt8)) : Prop :=
  (∃ ahead, child = some (.setup ahead) ∧ left = ahead ++ launch.failedWrites ec) ∨ child = some (.failed left) ∨
    child = some (.ended false) ∧ left = []

/-- Where a failed launch with an error handler is. -/
def Reporting (launch : Launch) (ec : Failure) (state : LaunchState) : Prop :=
  match state.parent with
  | .start => state = Launch.start
  | .forked | .readsHeader =>
    ∃ written left, written ++ left = launch.chunks ec ∧ state.pipe = written.flatten ∧ launch.Left ec state.child left
  | .readsMessage code _ => code ≠ 0#32 ∧ ∃ left, launch.Left ec state.child left
  | .reaps => ∃ left, launch.Left ec state.child left
  | .succeeds => False
  | .returned reports => reports = true ∧ (state.child = none ∨ state.child = some (.reaped false))

theorem chunks_eq (short : launch.Short) (ec : Failure) :
    ∃ code size rest, code ≠ 0#32 ∧ ¬ size.toInt < 0 ∧ launch.chunks ec = (intBytes code ++ intBytes size) :: rest := by
  have fits {error : RaisedError} (small : (cString error.msg).length + 1 < 2 ^ 31) :
      ¬ (Sender.setError.size error.msg).toInt < 0 := by
    rw [toInt_neg_iff, Sender.size, BitVec.toNat_add, BitVec.toNat_ofNat, BitVec.toNat_ofNat]
    omega
  unfold chunks setupWrites failedWrites
  by_cases setup : launch.onExecSetup = []
  · rw [setup, List.flatMap_nil, List.nil_append]
    by_cases raised : launch.onExecError = []
    · obtain ⟨payload, writes⟩ := Sender.failedExec.writes_eq ec.code execFailed
      rw [raised, List.flatMap_nil, List.nil_append, writes]
      exact ⟨_, _, _, ec.nonzero, by decide, rfl⟩
    · obtain ⟨error, member, rest, writes⟩ := flatMap_writes_eq raised
      rw [writes]
      exact ⟨_, _, _, error.ec.nonzero, fits (short error (List.mem_append_right _ member)), rfl⟩
  · obtain ⟨error, member, rest, writes⟩ := flatMap_writes_eq setup
    rw [writes]
    exact ⟨_, _, _, error.ec.nonzero, fits (short error (List.mem_append_left _ member)), rfl⟩

/-- A step of the child writes the next of what is left, or ends it when the parent has gone. -/
theorem childStep_left {ec : Failure} {state next : LaunchState} {left : List (List UInt8)} (fails : launch.execve = some ec)
    (child : launch.Left ec state.child left) (taken : launch.childStep state = some next) :
    next.parent = state.parent ∧
      (launch.Left ec next.child left ∧ next.pipe = state.pipe ∨
        (∃ bytes rest, left = bytes :: rest ∧ launch.Left ec next.child rest ∧ next.pipe = state.pipe ++ bytes) ∨
        state.parent.holdsSource = false ∧ ∃ left, launch.Left ec next.child left) := by
  have writes {bytes : List UInt8} {rest : List (List UInt8)} {after : ForkedChild}
      (later : launch.Left ec (some after) rest) (same : left = bytes :: rest)
      (written : launch.write state bytes after = next) :
      next.parent = state.parent ∧
        (launch.Left ec next.child left ∧ next.pipe = state.pipe ∨
          (∃ bytes rest, left = bytes :: rest ∧ launch.Left ec next.child rest ∧ next.pipe = state.pipe ++ bytes) ∨
          state.parent.holdsSource = false ∧ ∃ left, launch.Left ec next.child left) := by
    unfold write at written
    split at written
    · subst written
      exact ⟨rfl, .inr (.inl ⟨bytes, rest, same, later, rfl⟩)⟩
    · rename_i gone
      rw [Bool.not_eq_true] at gone
      split at written
      · subst written
        exact ⟨rfl, .inr (.inr ⟨gone, rest, later⟩)⟩
      · subst written
        exact ⟨rfl, .inr (.inr ⟨gone, [], .inr (.inr ⟨rfl, rfl⟩)⟩)⟩
  unfold childStep at taken
  obtain ⟨ahead, here, same⟩ | here | ⟨here, same⟩ := child
  · rw [here] at taken
    cases ahead with
    | nil =>
      rw [fails] at taken
      cases taken
      exact ⟨rfl, .inl ⟨.inr (.inl (by simp [same])), rfl⟩⟩
    | cons bytes rest => exact writes (.inl ⟨rest, rfl, rfl⟩) same (Option.some.inj taken)
  · rw [here] at taken
    cases left with
    | nil =>
      cases taken
      exact ⟨rfl, .inl ⟨.inr (.inr ⟨rfl, rfl⟩), rfl⟩⟩
    | cons bytes rest => exact writes (.inr (.inl rfl)) rfl (Option.some.inj taken)
  · rw [here] at taken
    cases taken

/-- The parent has not read yet, so the pipe has what the child has written. -/
theorem unread_childStep {ec : Failure} {state next : LaunchState} (fails : launch.execve = some ec)
    (reads : state.parent.holdsSource = true)
    (unread : ∃ written left, written ++ left = launch.chunks ec ∧ state.pipe = written.flatten ∧
      launch.Left ec state.child left)
    (taken : launch.childStep state = some next) :
    next.parent = state.parent ∧ ∃ written left, written ++ left = launch.chunks ec ∧ next.pipe = written.flatten ∧
      launch.Left ec next.child left := by
  obtain ⟨written, left, all, same, here⟩ := unread
  obtain ⟨stays, ⟨here, kept⟩ | ⟨bytes, rest, rfl, later, longer⟩ | ⟨gone, -⟩⟩ := childStep_left fails here taken
  · exact ⟨stays, written, left, all, kept.trans same, here⟩
  · refine ⟨stays, written ++ [bytes], rest, by simpa using all, ?_, later⟩
    rw [longer, same, List.flatten_append, List.flatten_singleton]
  · rw [reads] at gone
    cases gone

theorem exists_left_childStep {ec : Failure} {state next : LaunchState} (fails : launch.execve = some ec)
    (here : ∃ left, launch.Left ec state.child left) (taken : launch.childStep state = some next) :
    next.parent = state.parent ∧ ∃ left, launch.Left ec next.child left := by
  obtain ⟨left, here⟩ := here
  obtain ⟨stays, ⟨here, -⟩ | ⟨bytes, rest, -, later, -⟩ | ⟨-, broken⟩⟩ := childStep_left fails here taken
  · exact ⟨stays, left, here⟩
  · exact ⟨stays, rest, later⟩
  · exact ⟨stays, broken⟩

theorem not_replaced_of_left {ec : Failure} {left : List (List UInt8)} : ¬ launch.Left ec (some .replaced) left := by
  rintro (⟨ahead, here, -⟩ | here | ⟨here, -⟩) <;> cases here

theorem Reporting.not_replaced {ec : Failure} {state : LaunchState} (reporting : launch.Reporting ec state) :
    state.child ≠ some .replaced := by
  intro replaced
  unfold Reporting at reporting
  rw [replaced] at reporting
  split at reporting
  · rw [reporting] at replaced
    cases replaced
  · obtain ⟨_, _, _, _, here⟩ := reporting
    exact not_replaced_of_left here
  · obtain ⟨_, _, _, _, here⟩ := reporting
    exact not_replaced_of_left here
  · obtain ⟨_, _, here⟩ := reporting
    exact not_replaced_of_left here
  · obtain ⟨_, here⟩ := reporting
    exact not_replaced_of_left here
  · cases reporting
  · obtain ⟨-, none | reaped⟩ := reporting
    · cases none
    · cases reaped

theorem readHeader_of_unread {ec : Failure} {state next : LaunchState} (short : launch.Short)
    (unread : ∃ written left, written ++ left = launch.chunks ec ∧ state.pipe = written.flatten ∧
      launch.Left ec state.child left)
    (taken : readHeader state = some next) :
    ∃ code size, next.parent = .readsMessage code size ∧ code ≠ 0#32 ∧ ∃ left, launch.Left ec next.child left := by
  obtain ⟨code, size, rest, nonzero, positive, first⟩ := chunks_eq short ec
  obtain ⟨parent, child, pipe⟩ := state
  obtain ⟨written, left, all, same, here⟩ := unread
  dsimp only at same here
  have header : (intBytes code ++ intBytes size).length = 8 := by simp
  unfold readHeader at taken
  cases written with
  | nil =>
    -- the child is before its first write and has the sink
    rw [List.nil_append, first] at all
    have holds : atEnd ⟨parent, child, pipe⟩ = false := by
      obtain ⟨ahead, setup, -⟩ | failed | ⟨-, none⟩ := here
      · simp [atEnd, setup, ForkedChild.holdsSink]
      · simp [atEnd, failed, ForkedChild.holdsSink]
      · rw [none] at all
        cases all
    rw [if_neg (by simp [same]), holds, if_neg (by simp)] at taken
    cases taken
  | cons bytes written =>
    rw [first] at all
    obtain ⟨rfl, -⟩ := List.cons.inj all
    rw [List.flatten_cons] at same
    have filled : pipe ≠ [] := by
      intro empty
      rw [empty] at same
      have lengths := congrArg List.length same
      simp only [List.length_append, header, List.length_nil] at lengths
      omega
    rw [if_pos filled, same, List.take_left' header] at taken
    dsimp only at taken
    rw [List.drop_left' (intBytes_length code), List.take_left' (intBytes_length code),
      List.take_of_length_le (Nat.le_of_eq (intBytes_length size)), bytesInt_intBytes, bytesInt_intBytes,
      if_neg positive] at taken
    cases taken
    exact ⟨code, size, rfl, nonzero, left, here⟩

theorem Reporting.parentStep {ec : Failure} {state next : LaunchState} (handler : launch.hasErrorHandler = true)
    (piped : launch.pipe = none) (short : launch.Short) (reporting : launch.Reporting ec state)
    (waits : state.WaitsForEnd .parent) (taken : launch.parentStep state = some next) : launch.Reporting ec next := by
  obtain ⟨parent, child, pipe⟩ := state
  unfold Reporting at reporting
  cases parent with
  | start =>
    cases reporting
    cases taken
    unfold invoke
    rw [piped]
    split
    · contradiction
    · split
      · exact ⟨rfl, .inl rfl⟩
      · split
        · exact ⟨handler, .inl rfl⟩
        · exact ⟨[], launch.chunks ec, rfl, rfl, .inl ⟨_, rfl, rfl⟩⟩
  | forked =>
    cases taken
    exact reporting
  | readsHeader =>
    obtain ⟨code, size, reads, error⟩ := readHeader_of_unread short reporting taken
    unfold Reporting
    rw [reads]
    exact error
  | readsMessage code size =>
    simp only [Launch.parentStep, readMessage, handler, if_true] at taken
    split at taken
    · rw [if_pos reporting.1] at taken
      cases taken
      exact reporting.2
    · cases taken
  | reaps =>
    obtain ⟨left, here⟩ := reporting
    obtain ⟨replaced, ended⟩ := waits rfl rfl
    dsimp only at here ended
    rw [ended] at here
    obtain ⟨ahead, setup, -⟩ | failed | ⟨same, -⟩ := here
    · cases setup
    · cases failed
    · cases same
      cases taken
      subst ended
      exact ⟨rfl, .inr rfl⟩
  | succeeds => cases reporting
  | returned reports => cases taken

theorem Reporting.childStep {ec : Failure} {state next : LaunchState} (fails : launch.execve = some ec)
    (reporting : launch.Reporting ec state) (taken : launch.childStep state = some next) : launch.Reporting ec next := by
  obtain ⟨parent, child, pipe⟩ := state
  unfold Reporting at reporting
  cases parent with
  | start =>
    cases reporting
    cases taken
  | forked =>
    obtain ⟨stays, unread⟩ := unread_childStep fails rfl reporting taken
    unfold Reporting
    rw [stays]
    exact unread
  | readsHeader =>
    obtain ⟨stays, unread⟩ := unread_childStep fails rfl reporting taken
    unfold Reporting
    rw [stays]
    exact unread
  | readsMessage code size =>
    obtain ⟨stays, left⟩ := exists_left_childStep fails reporting.2 taken
    unfold Reporting
    rw [stays]
    exact ⟨reporting.1, left⟩
  | reaps =>
    obtain ⟨stays, left⟩ := exists_left_childStep fails reporting taken
    unfold Reporting
    rw [stays]
    exact left
  | succeeds => cases reporting
  | returned reports =>
    -- a child that is gone takes no step
    obtain ⟨-, rfl | rfl⟩ := reporting
    · cases taken
    · cases taken

theorem preserves_reporting {ec : Failure} (handler : launch.hasErrorHandler = true) (piped : launch.pipe = none)
    (fails : launch.execve = some ec) (short : launch.Short) :
    Preserves launch.step LaunchState.WaitsForEnd (launch.Reporting ec) := by
  intro state event next reporting waits taken
  cases event with
  | parent => exact reporting.parentStep handler piped short waits taken
  | child => exact reporting.childStep fails taken
  | imageEnds =>
    simp only [step] at taken
    split at taken
    · rename_i replaced
      exact absurd replaced reporting.not_replaced
    · cases taken

theorem Reporting.agrees {ec : Failure} {state : LaunchState} (reporting : launch.Reporting ec state) : state.Agrees := by
  intro reports returned
  unfold Reporting at reporting
  rw [returned] at reporting
  obtain ⟨rfl, none | reaped⟩ := reporting
  · rw [none]
    exact ⟨fun _ => by simp, fun _ => nofun⟩
  · rw [reaped]
    refine ⟨fun _ => by simp [ForkedChild.isReplaced], fun _ child same => ⟨false, ?_⟩⟩
    exact (Option.some.inj same).symm

/-- In every schedule the parent reports an error exactly if the child does not get a new image, and
has reaped the child that it reports, if and only if nothing fails behind fork and what fails before
is reported. With an error handler a failed execve is also reported as it should be in the schedules in
which the child has ended when the parent calls waitpid. -/
theorem agrees_iff_quiet (launch : Launch) :
    ((∀ schedule final, run launch.step start schedule = some final → final.Agrees) ↔ launch.Quiet) ∧
      (launch.hasErrorHandler = true → launch.pipe = none → launch.execve ≠ none → launch.Short →
        ∀ schedule final, Admits launch.step LaunchState.WaitsForEnd start schedule →
          run launch.step start schedule = some final → final.Agrees) := by
  refine ⟨⟨fun always => ?_, fun quiet schedule final reached => agrees_of_quiet quiet reached⟩, ?_⟩
  · by_contra loud
    obtain ⟨schedule, final, reached, not⟩ := exists_not_agrees loud
    exact not (always schedule final reached)
  · intro handler piped execs short schedule final admitted reached
    obtain ⟨ec, fails⟩ := Option.ne_none_iff_exists'.mp execs
    have initial : launch.Reporting ec start := @rfl _ start
    exact (run_invariant (preserves_reporting handler piped fails short) initial admitted reached).agrees

instance (state : LaunchState) (event : LaunchEvent) : Decidable (state.WaitsForEnd event) :=
  inferInstanceAs (Decidable (_ → _ → _))

/-- With an error handler ENOENT is reported, and the child, which has ended by then, is reaped. -/
theorem agrees_iff_quiet_notFound :
    ∃ final, run (Launch.step ⟨true, none, [], none, [], some ⟨2#32, by decide⟩, [], [], false⟩) start
        [.parent, .child, .child, .child, .child, .parent, .parent, .parent, .parent] = some final ∧
      final = ⟨.returned true, some (.reaped false), []⟩ ∧ final.Agrees := by
  have reached : run (Launch.step ⟨true, none, [], none, [], some ⟨2#32, by decide⟩, [], [], false⟩) start
      [.parent, .child, .child, .child, .child, .parent, .parent, .parent, .parent] =
      some ⟨.returned true, some (.reaped false), []⟩ := by
    decide +kernel
  have short : Short ⟨true, none, [], none, [], some ⟨2#32, by decide⟩, [], [], false⟩ := by
    intro error member
    cases member
  refine ⟨_, reached, rfl, (agrees_iff_quiet _).2 rfl rfl (by simp) short _ _ ?_ reached⟩
  decide +kernel

/-- Without an error handler the parent throws before it gets to waitpid: the child, for which execve
has failed with ENOENT, has ended and is not reaped. -/
theorem not_agrees_notFound :
    ∃ final, run (Launch.step ⟨false, none, [], none, [], some ⟨2#32, by decide⟩, [], [], false⟩) start
        [.parent, .child, .child, .child, .child, .parent, .parent, .parent] = some final ∧
      final.parent = .returned true ∧ final.child = some (.ended false) ∧ ¬ final.Agrees := by
  have reached : (run (Launch.step ⟨false, none, [], none, [], some ⟨2#32, by decide⟩, [], [], false⟩) start
      [.parent, .child, .child, .child, .child, .parent, .parent, .parent]) =
      some ⟨.returned true, some (.ended false), []⟩ := by
    decide +kernel
  refine ⟨_, reached, rfl, rfl, fun agrees => ?_⟩
  obtain ⟨replaced, reaped⟩ := (agrees true rfl).2 rfl _ rfl
  cases reaped

end Launch
end BoostProcess.V1.Posix
