import Literate.Proofs.Execution.Recording

/-!
# The life of an executor

An executor can be asked for anything at any time: lines may be run before and after its end, a launch,
a run or the end may fail, and whoever uses it may go on regardless. What it does is told by what came
before. `history` performs operations one after another and notes for each what was answered and which
calls were made to the launcher (`Turn`); `Turn.Step` lists all that a turn can be, from the phase that
it finds to the phase that it leaves.

Main results:

* `step_turn`: every operation takes one of these steps.
* `run_history`: and so does every sequence of them, each turn from the phase that the last one left.
* `Run.phase_of_idle`, `Run.phase_eq_running`, `Run.phase_eq_closed`: the phase is a matter of what the
  turns so far were.
* `history_one_runner`: there is at most one interpreter. Which calls an operation makes, and what it
  answers after the end, is settled by the turns before it.
-/

namespace Literate.Executor

-- ---------------------------------------------------------------------------
-- Operations and turns
-- ---------------------------------------------------------------------------

/-- What can be asked of an executor. -/
inductive Operation where
  | run (batch : Batch)
  | evaluate (code : String)
  | close
deriving DecidableEq

/-- The lines that an operation is to run. -/
def Operation.batch? : Operation → Option Batch
  | .run batch => some batch
  | .evaluate code => some (.expression code)
  | .close => none

/-- An operation with what it answers, which is nothing for the end. -/
def Operation.perform {σ : Type} (launcher : Launcher σ) :
    Operation → Effect (Executor σ) (Option String)
  | .run batch => some <$> Executor.run launcher batch
  | .evaluate code => some <$> Executor.evaluate launcher code
  | .close => (fun _ => none) <$> Executor.close launcher

/-- An operation, what came of it, and the calls that were made for it. -/
structure Turn where
  operation : Operation
  answer : Except ExecutionError (Option String)
  calls : List Call

section

variable {σ : Type} (launcher : Launcher σ)

/-- The calls that an operation makes. -/
def Operation.calls (operation : Operation) (executor : Executor σ) : List Call :=
  ((operation.perform launcher.recording).run ⟨executor.phase, executor.state, []⟩).2.state.2

def turn (operation : Operation) (executor : Executor σ) : Turn :=
  ⟨operation, ((operation.perform launcher).run executor).1, operation.calls launcher executor⟩

/-- The turns of operations that are performed one after another, whether they fail or not. -/
def history : List Operation → Executor σ → List Turn
  | [], _ => []
  | operation :: operations, executor =>
    turn launcher operation executor ::
      history operations ((operation.perform launcher).run executor).2

end

-- ---------------------------------------------------------------------------
-- One turn
-- ---------------------------------------------------------------------------

/-- What a turn can be, in the phase that it finds and with the phase that it leaves. -/
inductive Turn.Step : Phase → Turn → Phase → Prop where
  /-- The interpreter does not start, and the executor is as before. -/
  | refused {operation : Operation} {batch : Batch} (runs : operation.batch? = some batch)
      (error : ExecutionError) :
      Step .idle ⟨operation, .error error, [⟨.launch, some error⟩]⟩ .idle
  | launched {operation : Operation} {batch : Batch} (runs : operation.batch? = some batch)
      (answer : Except ExecutionError (Option String)) :
      Step .idle ⟨operation, answer, [⟨.launch, none⟩, ⟨.run batch, failure? answer⟩]⟩ .running
  | served {operation : Operation} {batch : Batch} (runs : operation.batch? = some batch)
      (answer : Except ExecutionError (Option String)) :
      Step .running ⟨operation, answer, [⟨.run batch, failure? answer⟩]⟩ .running
  /-- There is no work after the end. -/
  | late {operation : Operation} {batch : Batch} (runs : operation.batch? = some batch) :
      Step .closed ⟨operation, .error .closed, []⟩ .closed
  /-- There is nothing to be shut down: no interpreter was started, or it was shut down before. -/
  | nothing {phase : Phase} (ne_running : phase ≠ .running) :
      Step phase ⟨.close, .ok none, []⟩ .closed
  | shut (answer : Except ExecutionError (Option String)) :
      Step .running ⟨.close, answer, [⟨.close, failure? answer⟩]⟩ .closed

section

variable {σ : Type} (launcher : Launcher σ)

/-- An operation that runs lines runs them as `run` does. -/
theorem Operation.perform_of_runs {operation : Operation} {batch : Batch}
    (runs : operation.batch? = some batch) :
    operation.perform launcher = some <$> Executor.run launcher batch := by
  cases operation with
  | run batch' =>
    have hbatch : batch' = batch := Option.some.inj runs
    rw [← hbatch]
    rfl
  | evaluate code =>
    have hbatch : Batch.expression code = batch := Option.some.inj runs
    rw [← hbatch]
    rfl
  | close => cases runs

theorem Operation.eq_close {operation : Operation} (h : operation.batch? = none) :
    operation = .close := by
  cases operation with
  | close => rfl
  | run batch => cases h
  | evaluate code => cases h

theorem run_running (batch : Batch) (state : σ) :
    (some <$> run launcher batch).run ⟨.running, state⟩ =
      (((launcher.run batch).run state).1.map some,
        ⟨.running, ((launcher.run batch).run state).2⟩) := by
  have hrun : (run launcher batch).run ⟨.running, state⟩ =
      (((launcher.run batch).run state).1, ⟨.running, ((launcher.run batch).run state).2⟩) := rfl
  rw [Effect.run_map, hrun]

/-- Running lines with no interpreter there: it is launched first. -/
theorem run_idle (batch : Batch) (state : σ) :
    (some <$> run launcher batch).run ⟨.idle, state⟩ =
      match launcher.launch.run state with
      | (.error error, state') => (.error error, ⟨.idle, state'⟩)
      | (.ok (), state') => (some <$> run launcher batch).run ⟨.running, state'⟩ := by
  have hidle : (run launcher batch).run ⟨.idle, state⟩ =
      (call launcher.launch >>= fun _ => enter .running >>= fun _ =>
        call (launcher.run batch)).run ⟨.idle, state⟩ := rfl
  have hlaunch : (call launcher.launch).run ⟨.idle, state⟩ =
      ((launcher.launch.run state).1, ⟨.idle, (launcher.launch.run state).2⟩) := rfl
  rw [Effect.run_map, hidle, Effect.run_bind, hlaunch]
  rcases launcher.launch.run state with ⟨error | ⟨⟩, state'⟩
  · rfl
  · dsimp only
    rw [run_running]
    rfl

/-- Every operation takes one of the steps. -/
theorem step_turn (operation : Operation) (executor : Executor σ) :
    Turn.Step executor.phase (turn launcher operation executor)
      ((operation.perform launcher).run executor).2.phase := by
  obtain ⟨phase, state⟩ := executor
  -- An operation closes the executor or runs a batch; what it does then is a matter of the phase.
  cases hbatch : operation.batch? with
  | none =>
    rw [Operation.eq_close hbatch]
    unfold turn Operation.calls Operation.perform
    rw [Effect.run_map, Effect.run_map]
    cases phase with
    | idle => exact .nothing Phase.noConfusion
    | closed => exact .nothing Phase.noConfusion
    | running =>
      have hstep := Turn.Step.shut ((launcher.close.run state).1.map fun _ => none)
      rw [failure?_map] at hstep
      exact hstep
  | some batch =>
    unfold turn Operation.calls
    rw [Operation.perform_of_runs launcher hbatch, Operation.perform_of_runs launcher.recording hbatch]
    cases phase with
    | closed => exact .late hbatch
    | running =>
      have hstep := Turn.Step.served hbatch (((launcher.run batch).run state).1.map some)
      rw [failure?_map] at hstep
      rw [run_running, run_running]
      exact hstep
    | idle =>
      have hlaunch : launcher.recording.launch.run (state, []) =
          ((launcher.launch.run state).1, (launcher.launch.run state).2,
            [⟨.launch, failure? (launcher.launch.run state).1⟩]) := rfl
      rw [run_idle, run_idle, hlaunch]
      rcases launcher.launch.run state with ⟨error | ⟨⟩, state'⟩
      · exact .refused hbatch error
      · have hstep := Turn.Step.launched hbatch (((launcher.run batch).run state').1.map some)
        rw [failure?_map] at hstep
        dsimp only
        rw [run_running, run_running]
        exact hstep

end

-- ---------------------------------------------------------------------------
-- Any number of turns
-- ---------------------------------------------------------------------------

/-- Turns one after another, each in the phase that the one before it has left. -/
inductive Run : Phase → List Turn → Phase → Prop where
  | nil (phase : Phase) : Run phase [] phase
  | cons {first next last : Phase} {turn : Turn} {turns : List Turn} (step : Turn.Step first turn next)
      (rest : Run next turns last) : Run first (turn :: turns) last

/-- All calls that were made in some turns. -/
def callsIn (turns : List Turn) : List Call :=
  turns.flatMap (·.calls)

/-- Whether a launch has succeeded in some turns. -/
def launched (turns : List Turn) : Bool :=
  (callsIn turns).contains ⟨.launch, none⟩

/-- Whether the end was asked for in some turns. -/
def ended (turns : List Turn) : Bool :=
  turns.any (·.operation = .close)

/-- Any operations, in any order, take one step after another. -/
theorem run_history {σ : Type} (launcher : Launcher σ) (operations : List Operation)
    (executor : Executor σ) :
    ∃ last, Run executor.phase (history launcher operations executor) last := by
  induction operations generalizing executor with
  | nil => exact ⟨executor.phase, .nil _⟩
  | cons operation operations ih =>
    obtain ⟨last, hrest⟩ := ih ((operation.perform launcher).run executor).2
    exact ⟨last, .cons (step_turn launcher operation executor) hrest⟩

theorem operation_history {σ : Type} (launcher : Launcher σ) (operations : List Operation)
    (executor : Executor σ) :
    (history launcher operations executor).map (·.operation) = operations := by
  induction operations generalizing executor with
  | nil => rfl
  | cons operation operations ih => exact congrArg (operation :: ·) (ih _)

/-- How many launches may still succeed. -/
def launchesLeft : Phase → Nat
  | .idle => 1
  | .running | .closed => 0

/-- How many interpreters may still be shut down. -/
def closesLeft : Phase → Nat
  | .idle | .running => 1
  | .closed => 0

namespace Turn.Step

variable {first next : Phase} {turn : Turn}

theorem ne_close_of_runs {operation : Operation} {batch : Batch}
    (runs : operation.batch? = some batch) : operation ≠ .close := by
  rintro rfl
  cases runs

/-- The end is final, and nothing else ends an executor. -/
theorem eq_closed (h : Step first turn next) :
    next = .closed ↔ first = .closed ∨ turn.operation = .close := by
  cases h with
  | refused runs error => simp [ne_close_of_runs runs]
  | launched runs answer => simp [ne_close_of_runs runs]
  | served runs answer => simp [ne_close_of_runs runs]
  | late runs => simp
  | nothing ne_running => simp
  | shut answer => simp

/-- Before the end, an interpreter is running once a launch has succeeded. -/
theorem eq_running (h : Step first turn next) (hnext : next ≠ .closed) :
    next = .running ↔ first = .running ∨ ⟨.launch, none⟩ ∈ turn.calls := by
  cases h with
  | refused runs error => simp
  | launched runs answer => simp
  | served runs answer => simp
  | late runs => exact absurd rfl hnext
  | nothing ne_running => exact absurd rfl hnext
  | shut answer => exact absurd rfl hnext

/-- A turn runs the lines that its operation is to run, or none. -/
theorem batches_sublist (h : Step first turn next) :
    (Call.batches turn.calls).Sublist turn.operation.batch?.toList := by
  cases h with
  | refused runs error => exact List.nil_sublist _
  | launched runs answer => exact runs ▸ List.Sublist.refl _
  | served runs answer => exact runs ▸ List.Sublist.refl _
  | late runs => exact List.nil_sublist _
  | nothing ne_running => exact List.nil_sublist _
  | shut answer => exact List.nil_sublist _

theorem of_closed (h : Step .closed turn next) :
    turn.calls = [] ∧
      ∀ batch, turn.operation.batch? = some batch → turn.answer = .error .closed := by
  cases h with
  | late runs => exact ⟨rfl, fun _ _ => rfl⟩
  | nothing ne_running => exact ⟨rfl, fun _ hbatch => absurd rfl (ne_close_of_runs hbatch)⟩

theorem of_running (h : Step .running turn next) :
    (turn.operation = .close → turn.calls = [⟨.close, failure? turn.answer⟩]) ∧
      ∀ batch, turn.operation.batch? = some batch →
        turn.calls = [⟨.run batch, failure? turn.answer⟩] := by
  cases h with
  | served runs answer =>
    refine ⟨fun hclose => absurd hclose (ne_close_of_runs runs), fun batch hbatch => ?_⟩
    rw [Option.some.inj (runs.symm.trans hbatch)]
  | nothing ne_running => exact absurd rfl ne_running
  | shut answer => exact ⟨fun _ => rfl, fun _ hbatch => absurd rfl (ne_close_of_runs hbatch)⟩

theorem of_idle (h : Step .idle turn next) :
    (turn.operation = .close → turn.calls = []) ∧
      ∀ batch, turn.operation.batch? = some batch →
        (∃ error, turn.answer = .error error ∧ turn.calls = [⟨.launch, some error⟩]) ∨
          turn.calls = [⟨.launch, none⟩, ⟨.run batch, failure? turn.answer⟩] := by
  cases h with
  | refused runs error =>
    exact ⟨fun hclose => absurd hclose (ne_close_of_runs runs), fun _ _ => .inl ⟨error, rfl, rfl⟩⟩
  | launched runs answer =>
    refine ⟨fun hclose => absurd hclose (ne_close_of_runs runs), fun batch hbatch => .inr ?_⟩
    rw [Option.some.inj (runs.symm.trans hbatch)]
  | nothing ne_running => exact ⟨fun _ => rfl, fun _ hbatch => absurd rfl (ne_close_of_runs hbatch)⟩

end Turn.Step

namespace Run

variable {first last : Phase} {turns before after : List Turn}

theorem of_append (h : Run first (before ++ after) last) :
    ∃ phase, Run first before phase ∧ Run phase after last := by
  induction before generalizing first with
  | nil => exact ⟨first, .nil first, h⟩
  | cons turn before ih =>
    cases h with
    | cons step rest =>
      obtain ⟨phase, hbefore, hafter⟩ := ih rest
      exact ⟨phase, .cons step hbefore, hafter⟩

/-- An executor has ended if its end was asked for. -/
theorem phase_eq_closed (h : Run first turns last) :
    last = .closed ↔ first = .closed ∨ ended turns = true := by
  induction h with
  | nil phase => simp [ended]
  | cons step rest ih =>
    rw [ih, step.eq_closed, or_assoc]
    simp [ended]

/-- An interpreter is running if a launch has succeeded, and not the end. -/
theorem phase_eq_running (h : Run first turns last) (hlast : last ≠ .closed) :
    last = .running ↔ first = .running ∨ launched turns = true := by
  induction h with
  | nil phase => simp [launched, callsIn]
  | cons step rest ih =>
    have hnext : _ ≠ Phase.closed := fun hclosed =>
      hlast (rest.phase_eq_closed.mpr (.inl hclosed))
    rw [ih hlast, step.eq_running hnext, or_assoc]
    simp [launched, callsIn]

/-- The phase of an executor is a matter of what the turns so far were. -/
theorem phase_of_idle (h : Run .idle turns last) :
    last = if ended turns then .closed else if launched turns then .running else .idle := by
  have hclosed := h.phase_eq_closed
  have hrunning := h.phase_eq_running
  cases hended : ended turns with
  | true => exact hclosed.mpr (.inr hended)
  | false =>
    have hne : last ≠ .closed := by
      intro hlast
      simp [hended] at hclosed
      exact hclosed hlast
    cases hlaunched : launched turns with
    | true => exact (hrunning hne).mpr (.inr hlaunched)
    | false =>
      have hidle : last ≠ .running := by
        intro hlast
        simp [hlaunched] at hrunning
        exact hrunning hne hlast
      cases last with
      | idle => rfl
      | running => exact absurd rfl hidle
      | closed => exact absurd rfl hne

/-- Calls of a kind that every turn pays for are made no more often than the first phase can afford. -/
theorem countP_le {p : Call → Bool} (budget : Phase → Nat)
    (hstep : ∀ {first turn next}, Turn.Step first turn next →
      turn.calls.countP p + budget next ≤ budget first) (h : Run first turns last) :
    (callsIn turns).countP p + budget last ≤ budget first := by
  induction h with
  | nil phase => simp [callsIn]
  | cons step rest ih =>
    have hturn := hstep step
    rw [callsIn, List.flatMap_cons, List.countP_append, ← callsIn]
    omega

/-- Only an executor that has not launched an interpreter can launch one. -/
theorem launches_le (h : Run first turns last) :
    (callsIn turns).countP (· = ⟨.launch, none⟩) ≤ launchesLeft first := by
  have hcount := h.countP_le (p := (· = ⟨.launch, none⟩)) launchesLeft fun step => ?_
  · omega
  · cases step with
    | nothing ne_running => simp [launchesLeft]
    | _ => simp [launchesLeft]

/-- Only an executor that has not ended can shut an interpreter down. -/
theorem closes_le (h : Run first turns last) :
    (callsIn turns).countP (·.request = .close) ≤ closesLeft first := by
  have hcount := h.countP_le (p := (·.request = .close)) closesLeft fun step => ?_
  · omega
  · cases step with
    | _ => simp [closesLeft]

/-- Lines are run in the order in which they were given. -/
theorem batches_sublist (h : Run first turns last) :
    (Call.batches (callsIn turns)).Sublist (turns.filterMap (·.operation.batch?)) := by
  induction h with
  | nil phase => exact List.nil_sublist _
  | @cons first next last turn turns step rest ih =>
    have hfilter : (turn :: turns).filterMap (·.operation.batch?) =
        turn.operation.batch?.toList ++ turns.filterMap (·.operation.batch?) := by
      cases hbatch : turn.operation.batch? <;> simp [hbatch]
    rw [callsIn, List.flatMap_cons, Call.batches_append, ← callsIn, hfilter]
    exact step.batches_sublist.append ih

end Run

/-- There is at most one interpreter, it is shut down at most once, and lines reach it in the order in
which they were given. What a turn is, is settled by those before it: after the end no call is made and
no lines are run; before it, lines go to the interpreter if a launch has succeeded, otherwise to one that
is launched now, however often that has failed; and the first end shuts the interpreter down if there is
one. -/
theorem history_one_runner {σ : Type} (launcher : Launcher σ) (operations : List Operation)
    (state : σ) :
    let turns := history launcher operations (.idle state)
    turns.map (·.operation) = operations ∧
    (callsIn turns).countP (· = ⟨.launch, none⟩) ≤ 1 ∧
    (callsIn turns).countP (·.request = .close) ≤ 1 ∧
    (Call.batches (callsIn turns)).Sublist (operations.filterMap (·.batch?)) ∧
    ∀ before turn after, turns = before ++ turn :: after →
      (ended before = true →
        turn.calls = [] ∧ ∀ batch, turn.operation.batch? = some batch → turn.answer = .error .closed) ∧
      (ended before = false → turn.operation = .close →
        turn.calls = if launched before then [⟨.close, failure? turn.answer⟩] else []) ∧
      (ended before = false → ∀ batch, turn.operation.batch? = some batch →
        if launched before then turn.calls = [⟨.run batch, failure? turn.answer⟩]
        else
          (∃ error, turn.answer = .error error ∧ turn.calls = [⟨.launch, some error⟩]) ∨
            turn.calls = [⟨.launch, none⟩, ⟨.run batch, failure? turn.answer⟩]) := by
  intro turns
  have hoperations : turns.map (·.operation) = operations := operation_history launcher operations _
  obtain ⟨last, hrun⟩ := run_history launcher operations (.idle state)
  have hrun : Run .idle turns last := hrun
  refine ⟨hoperations, hrun.launches_le, hrun.closes_le, ?_, ?_⟩
  · have hsublist := hrun.batches_sublist
    rw [← hoperations, List.filterMap_map]
    exact hsublist
  intro before turn after hturns
  rw [hturns] at hrun
  obtain ⟨phase, hbefore, hafter⟩ := hrun.of_append
  have hphase := hbefore.phase_of_idle
  cases hafter with
  | cons step rest =>
    -- What came before fixes the phase, and the phase fixes the step.
    cases hended : ended before with
    | true =>
      simp only [hended, if_true] at hphase
      subst hphase
      exact ⟨fun _ => step.of_closed, fun h => (by cases h), fun h => (by cases h)⟩
    | false =>
      cases hlaunched : launched before with
      | true =>
        simp only [hended, hlaunched, if_true, Bool.false_eq_true, if_false] at hphase
        subst hphase
        obtain ⟨hclose, hserved⟩ := step.of_running
        exact ⟨fun h => (by cases h), fun _ => hclose, fun _ => hserved⟩
      | false =>
        simp only [hended, hlaunched, Bool.false_eq_true, if_false] at hphase
        subst hphase
        obtain ⟨hclose, hstarted⟩ := step.of_idle
        exact ⟨fun h => (by cases h), fun _ => hclose, fun _ => hstarted⟩

end Literate.Executor
