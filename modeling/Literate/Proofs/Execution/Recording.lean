import Literate.Proofs.Execution.Plan

/-!
# The calls of an execution

What is asked of a launcher can be recorded along the way, by a launcher that does the same and takes
note (`Launcher.recording`). Its records tell which calls an execution makes, and which of them fail.

Main results:

* `executeUnder_recording`: recording the calls changes nothing else.
* `runs_follow_plan`: the runs of an execution are those of the plan of its document, up to the first
  that fails.
* `succeeds_iff_calls_succeed`: an execution fails only if a call does.
-/

namespace Literate

-- ---------------------------------------------------------------------------
-- Recording
-- ---------------------------------------------------------------------------

/-- What can be asked of a launcher. -/
inductive Request where
  | launch
  | run (batch : Batch)
  | close
deriving DecidableEq

/-- A call to a launcher, with the error if it failed. -/
structure Call where
  request : Request
  failure : Option ExecutionError
deriving DecidableEq

/-- The error of a result that is one. -/
def failure? {α : Type} : Except ExecutionError α → Option ExecutionError
  | .ok _ => none
  | .error error => some error

theorem failure?_map {α β : Type} (result : Except ExecutionError α) (f : α → β) :
    failure? (result.map f) = failure? result := by
  cases result <;> rfl

/-- An effect that is recorded as a call. -/
def Effect.recorded {σ α : Type} (request : Request) (x : Effect σ α) : Effect (σ × List Call) α :=
  fun (state, calls) =>
    let (result, state) := x.run state
    (result, state, calls ++ [⟨request, failure? result⟩])

/-- The same launcher, which keeps the calls that are made to it beside its state. -/
def Launcher.recording {σ : Type} (launcher : Launcher σ) : Launcher (σ × List Call) where
  preflight := launcher.preflight
  launch := launcher.launch.recorded .launch
  run batch := (launcher.run batch).recorded (.run batch)
  close := launcher.close.recorded .close

/-- The lines of a call that runs some, with the error if they failed. -/
def Call.run? : Call → Option (Batch × Option ExecutionError)
  | ⟨.run batch, failure⟩ => some (batch, failure)
  | _ => none

/-- The calls that run lines. -/
def Call.runs (calls : List Call) : List (Batch × Option ExecutionError) :=
  calls.filterMap run?

/-- The lines that calls run. -/
def Call.batches (calls : List Call) : List Batch :=
  (runs calls).map (·.1)

/-- The calls that an execution makes. -/
def callsOf {σ : Type} (limit : PatternLimit) (launcher : Launcher σ) (shorthands : List String)
    (d : Document) (state : σ) : List Call :=
  ((executeUnder limit launcher.recording shorthands d).run (state, [])).2.2

-- ---------------------------------------------------------------------------
-- Recording changes nothing else
-- ---------------------------------------------------------------------------

section

variable {σ τ α β : Type} {erase : τ → σ}

/-- An effect that does what another does, on a state with more in it. -/
def Effect.Erases (erase : τ → σ) (x : Effect τ α) (y : Effect σ α) : Prop :=
  ∀ state, ((x.run state).1, erase (x.run state).2) = y.run (erase state)

namespace Effect.Erases

theorem pure (a : α) : Effect.Erases erase (Pure.pure a) (Pure.pure a) := fun _ => rfl

theorem ofExcept (result : Except ExecutionError α) :
    Effect.Erases erase (.ofExcept result) (.ofExcept result) := fun _ => rfl

theorem bind {x : Effect τ α} {y : Effect σ α} {f : α → Effect τ β} {g : α → Effect σ β}
    (hxy : Effect.Erases erase x y) (hfg : ∀ a, Effect.Erases erase (f a) (g a)) :
    Effect.Erases erase (x >>= f) (y >>= g) := by
  intro state
  have hstate := hxy state
  rw [run_bind, run_bind, ← hstate]
  rcases x.run state with ⟨error | a, state'⟩
  · rfl
  · exact hfg a state'

theorem recorded (request : Request) (x : Effect σ α) :
    Effect.Erases Prod.fst (x.recorded request) x := fun _ => rfl

end Effect.Erases

/-- A launcher that does what another does, on a state with more in it. -/
structure Launcher.Erases (erase : τ → σ) (left : Launcher τ) (right : Launcher σ) : Prop where
  launch : Effect.Erases erase left.launch right.launch
  run : ∀ batch, Effect.Erases erase (left.run batch) (right.run batch)
  close : Effect.Erases erase left.close right.close

theorem Launcher.erases_recording (launcher : Launcher σ) :
    Launcher.Erases Prod.fst launcher.recording launcher :=
  ⟨.recorded _ _, fun _ => .recorded _ _, .recorded _ _⟩

namespace Executor

/-- An executor with less in the state of its launcher. -/
def map (erase : τ → σ) (executor : Executor τ) : Executor σ :=
  ⟨executor.phase, erase executor.state⟩

theorem erases_call {x : Effect τ α} {y : Effect σ α} (hxy : Effect.Erases erase x y) :
    Effect.Erases (map erase) (call x) (call y) := by
  intro executor
  have hstate := hxy executor.state
  show ((x.run executor.state).1, Executor.mk executor.phase (erase (x.run executor.state).2)) =
    ((y.run (erase executor.state)).1, ⟨executor.phase, (y.run (erase executor.state)).2⟩)
  rw [← hstate]

theorem erases_enter (phase : Phase) : Effect.Erases (map erase) (enter phase) (enter phase) :=
  fun _ => rfl

variable {left : Launcher τ} {right : Launcher σ} (h : Launcher.Erases erase left right)

include h

theorem erases_run (batch : Batch) :
    Effect.Erases (map erase) (run left batch) (run right batch) := by
  have hrun := erases_call (h.run batch)
  have hlaunch := erases_call h.launch
  rintro ⟨phase, state⟩
  cases phase with
  | closed => rfl
  | running => exact hrun ⟨.running, state⟩
  | idle => exact hlaunch.bind (fun _ => (erases_enter .running).bind fun _ => hrun) ⟨.idle, state⟩

theorem erases_close : Effect.Erases (map erase) (close left) (close right) := by
  have hclose := erases_call h.close
  rintro ⟨phase, state⟩
  cases phase with
  | running => exact hclose ⟨.closed, state⟩
  | idle | closed => rfl

/-- A session of work that does what other work does. -/
theorem erases_session {x : Effect (Executor τ) α} {y : Effect (Executor σ) α}
    (hxy : Effect.Erases (map erase) x y) :
    Effect.Erases erase (session left x) (session right y) := by
  intro state
  have hwork := hxy (.idle state)
  have hclose := erases_close h (x.run (.idle state)).2
  rcases hx : x.run (.idle state) with ⟨error | a, executor⟩
  · rw [hx] at hwork hclose
    have hy : y.run (.idle (erase state)) = (.error error, executor.map erase) := hwork.symm
    rw [run_session_error hx, run_session_error hy, ← hclose]
    rfl
  · rw [hx] at hwork hclose
    have hy : y.run (.idle (erase state)) = (.ok a, executor.map erase) := hwork.symm
    rw [run_session_ok hx, run_session_ok hy, ← hclose]
    rfl

end Executor

variable {left : Launcher τ} {right : Launcher σ} (h : Launcher.Erases erase left right)

include h

theorem OnePass.lockstep_erases :
    Lockstep left right fun _ _ x y =>
      ∀ mark, Effect.Erases (Executor.map erase) (x.run mark) (y.run mark) where
  pure _ := fun _ => .pure _
  bind hx hf := fun mark => (hx mark).bind fun p => hf p.1 p.2
  mark _ := fun _ => .pure _
  settle _ hx := fun _ => (hx _).bind fun _ => .pure _
  run batch := fun _ => (Executor.erases_run h batch).bind fun _ => .pure _

/-- Launchers that do the same make the same of a document. -/
theorem OnePass.erases_rewriteDocument (shorthands : List String) (d : Document) :
    Effect.Erases (Executor.map erase) (rewriteDocument left shorthands d)
      (rewriteDocument right shorthands d) := by
  have hslots := (lockstep_erases h).rewriteSlots shorthands d none
  rw [rewriteDocument, rewriteDocument, StateT.run'_eq, StateT.run'_eq]
  exact Effect.Erases.bind (hslots.bind fun _ => .pure _) fun _ => .pure _

end

/-- Recording the calls of an execution changes nothing else. -/
theorem executeUnder_recording {σ : Type} (limit : PatternLimit) (launcher : Launcher σ)
    (shorthands : List String) (d : Document) :
    Effect.Erases Prod.fst (executeUnder limit launcher.recording shorthands d)
      (executeUnder limit launcher shorthands d) := by
  rw [executeUnder, executeUnder, session_visitAll, session_visitAll]
  have herases := launcher.erases_recording
  refine .bind (.ofExcept _) fun _ => .bind (.ofExcept _) fun _ => ?_
  exact Executor.erases_session herases (OnePass.erases_rewriteDocument herases shorthands d)

-- ---------------------------------------------------------------------------
-- The calls of a session
-- ---------------------------------------------------------------------------

/-- The calls that are made where lines are to be run: all lines are run, or as many of them as come
before a call that fails. -/
inductive Made (batches : List Batch) : Except ExecutionError Unit → List Call → Prop where
  | all {calls : List Call} (succeeded : ∀ call ∈ calls, call.failure = none)
      (ran : Call.batches calls = batches) : Made batches (.ok ()) calls
  | upTo {calls : List Call} {last : Call} {error : ExecutionError}
      (succeeded : ∀ call ∈ calls, call.failure = none) (failed : last.failure = some error)
      (ne_close : last.request ≠ .close)
      (ran : Call.batches (calls ++ [last]) <+: batches) :
      Made batches (.error error) (calls ++ [last])

theorem Call.runs_append (first second : List Call) :
    runs (first ++ second) = runs first ++ runs second :=
  List.filterMap_append ..

theorem Call.batches_append (first second : List Call) :
    batches (first ++ second) = batches first ++ batches second := by
  rw [batches, runs_append, List.map_append, batches, batches]

theorem Call.exists_of_mem_runs {calls : List Call} {batch : Batch} {failure : Option ExecutionError}
    (h : (batch, failure) ∈ runs calls) : ∃ call ∈ calls, call.failure = failure := by
  obtain ⟨⟨request, failure'⟩, hcall, hrun⟩ := List.mem_filterMap.mp h
  refine ⟨_, hcall, ?_⟩
  cases request with
  | run batch' => exact congrArg Prod.snd (Option.some.inj hrun)
  | launch => cases hrun
  | close => cases hrun

namespace Made

variable {batches rest : List Batch} {result : Except ExecutionError Unit} {calls later : List Call}
  {error : ExecutionError}

theorem nil : Made [] (.ok ()) [] :=
  .all (fun _ h => absurd h List.not_mem_nil) rfl

/-- After an error nothing more is run. -/
theorem stop (h : Made batches (.error error) calls) : Made (batches ++ rest) (.error error) calls := by
  cases h with
  | upTo succeeded failed ne_close ran =>
    exact .upTo succeeded failed ne_close (ran.trans (List.prefix_append ..))

theorem append (h : Made batches (.ok ()) calls) (hlater : Made rest result later) :
    Made (batches ++ rest) result (calls ++ later) := by
  obtain ⟨hcalls, rfl⟩ := h
  cases hlater with
  | all succeeded ran =>
    refine .all (fun call hcall => ?_) ?_
    · exact (List.mem_append.mp hcall).elim (hcalls call) (succeeded call)
    · rw [Call.batches_append, ran]
  | upTo succeeded failed ne_close ran =>
    rw [← List.append_assoc]
    refine .upTo (fun call hcall => ?_) failed ne_close ?_
    · exact (List.mem_append.mp hcall).elim (hcalls call) (succeeded call)
    · rw [List.append_assoc, Call.batches_append]
      exact List.prefix_append_right_inj _ |>.mpr ran

/-- The interpreter could not be started. -/
theorem launch_error (error : ExecutionError) : Made batches (.error error) [⟨.launch, some error⟩] :=
  @upTo _ [] ⟨.launch, some error⟩ error (fun _ h => absurd h List.not_mem_nil) rfl Request.noConfusion
    List.nil_prefix

theorem launch (h : Made batches result calls) : Made batches result (⟨.launch, none⟩ :: calls) := by
  have hlaunch : Made [] (.ok ()) [⟨.launch, none⟩] := .all (by simp) rfl
  exact hlaunch.append h

theorem run (batch : Batch) (answer : Except ExecutionError String) :
    Made [batch] (answer.map fun _ => ()) [⟨.run batch, failure? answer⟩] := by
  rcases answer with error | answer
  · exact @upTo _ [] ⟨.run batch, some error⟩ error (fun _ h => absurd h List.not_mem_nil) rfl
      Request.noConfusion (List.prefix_refl _)
  · exact .all (by simp [failure?]) rfl

theorem runs_prefix (h : Made batches result calls) : Call.batches calls <+: batches := by
  cases h with
  | all succeeded ran => exact ran ▸ List.prefix_refl _
  | upTo succeeded failed ne_close ran => exact ran

/-- A run that fails is the last one. -/
theorem runs_of_error (h : Made batches result calls) {k : Nat} {batch : Batch}
    (hk : (Call.runs calls)[k]? = some (batch, some error)) :
    Call.batches calls = batches.take (k + 1) := by
  -- Only the last call of all fails, so the run at `k` is that call and none comes after it.
  have hlength : (Call.runs calls).length = k + 1 := by
    cases h with
    | all succeeded ran =>
      obtain ⟨call, hcall, hfailure⟩ := Call.exists_of_mem_runs (List.mem_of_getElem? hk)
      rw [succeeded call hcall] at hfailure
      cases hfailure
    | @upTo calls last _ succeeded failed ne_close ran =>
      rw [Call.runs_append, List.getElem?_append] at hk
      split at hk
      · obtain ⟨call, hcall, hfailure⟩ := Call.exists_of_mem_runs (List.mem_of_getElem? hk)
        rw [succeeded call hcall] at hfailure
        cases hfailure
      · have hlt := (List.getElem?_eq_some_iff.mp hk).1
        have hle : (Call.runs [last]).length ≤ 1 := List.length_filterMap_le ..
        rw [Call.runs_append, List.length_append]
        omega
  have htake := List.prefix_iff_eq_take.mp h.runs_prefix
  rwa [Call.batches, List.length_map, hlength] at htake

theorem all_run (h : Made batches result calls)
    (hcalls : ∀ call ∈ calls, call.request ≠ .close → call.failure = none) :
    Call.batches calls = batches := by
  cases h with
  | all succeeded ran => exact ran
  | @upTo calls last _ succeeded failed ne_close ran =>
    rw [hcalls last (List.mem_append_right _ (List.mem_singleton_self _)) ne_close] at failed
    cases failed

end Made

namespace Executor

variable {σ : Type} {launcher : Launcher σ}

/-- An effect that makes the calls to run lines, on an executor that is not closed. -/
def Makes (batches : List Batch) (x : Effect (Executor (σ × List Call)) Unit) : Prop :=
  ∀ executor : Executor (σ × List Call), executor.phase ≠ .closed →
    (x.run executor).2.phase ≠ .closed ∧
      ∃ calls, (x.run executor).2.state.2 = executor.state.2 ++ calls ∧
        Made batches (x.run executor).1 calls

theorem run_call_recorded {α : Type} (request : Request) (x : Effect σ α) (phase : Phase) (state : σ)
    (calls : List Call) :
    (call (x.recorded request)).run ⟨phase, state, calls⟩ =
      ((x.run state).1, ⟨phase, (x.run state).2, calls ++ [⟨request, failure? (x.run state).1⟩]⟩) :=
  rfl

theorem makes_run (launcher : Launcher σ) (batch : Batch) :
    Makes [batch] (run launcher.recording batch).forget := by
  rintro ⟨phase, state, calls⟩ hphase
  rw [Effect.run_forget]
  cases phase with
  | closed => exact absurd rfl hphase
  | running => exact ⟨hphase, _, rfl, .run batch _⟩
  | idle =>
    have hidle : (run launcher.recording batch).run ⟨.idle, state, calls⟩ =
        (call launcher.recording.launch >>= fun _ =>
          enter .running >>= fun _ => call (launcher.recording.run batch)).run ⟨.idle, state, calls⟩ :=
      rfl
    rw [hidle]
    -- The interpreter is started first, and a start that fails is the only call.
    rcases hlaunch : launcher.launch.run state with ⟨error | ⟨⟩, state'⟩
    · have hcall : (call launcher.recording.launch).run ⟨.idle, state, calls⟩ =
          (.error error, ⟨.idle, state', calls ++ [⟨.launch, some error⟩]⟩) := by
        refine (run_call_recorded ..).trans ?_
        rw [hlaunch]
        rfl
      rw [Effect.run_bind_error hcall]
      exact ⟨hphase, _, rfl, .launch_error error⟩
    · have hcall : (call launcher.recording.launch).run ⟨.idle, state, calls⟩ =
          (.ok (), ⟨.idle, state', calls ++ [⟨.launch, none⟩]⟩) := by
        refine (run_call_recorded ..).trans ?_
        rw [hlaunch]
        rfl
      rw [Effect.run_bind_ok hcall]
      refine ⟨Phase.noConfusion, _, ?_, .launch (.run batch _)⟩
      exact List.append_assoc ..

/-- All lines are run, one after another, until a call fails. -/
theorem makes_runAll (launcher : Launcher σ) (batches : List Batch) :
    Makes batches (runAll launcher.recording batches) := by
  induction batches with
  | nil => exact fun executor hphase => ⟨hphase, [], (List.append_nil _).symm, .nil⟩
  | cons batch batches ih =>
    intro executor hphase
    obtain ⟨hphase', calls, hcalls, hmade⟩ := makes_run launcher batch executor hphase
    rw [runAll, Effect.run_bind]
    rcases hrun : (run launcher.recording batch).forget.run executor with ⟨error | ⟨⟩, executor'⟩
    · rw [hrun] at hphase' hcalls hmade
      exact ⟨hphase', calls, hcalls, hmade.stop⟩
    · rw [hrun] at hphase' hcalls hmade
      obtain ⟨hphase'', later, hlater, hmade'⟩ := ih executor' hphase'
      refine ⟨hphase'', calls ++ later, ?_, hmade.append hmade'⟩
      rw [hlater, hcalls, List.append_assoc]

/-- The calls that end a session, with what comes of them. -/
inductive Shut : Except ExecutionError Unit → List Call → Prop where
  | idle : Shut (.ok ()) []
  | running (result : Except ExecutionError Unit) : Shut result [⟨.close, failure? result⟩]

theorem shut_close (launcher : Launcher σ) (executor : Executor (σ × List Call)) :
    ∃ calls, ((close launcher.recording).run executor).2.state.2 = executor.state.2 ++ calls ∧
      Shut ((close launcher.recording).run executor).1 calls := by
  obtain ⟨phase, state⟩ := executor
  cases phase with
  | running => exact ⟨_, rfl, .running _⟩
  | idle | closed => exact ⟨[], (List.append_nil _).symm, .idle⟩

theorem Shut.runs_eq_nil {result : Except ExecutionError Unit} {calls : List Call}
    (h : Shut result calls) : Call.runs calls = [] := by
  cases h <;> rfl

/-- A session makes the calls of its work, then those that end it. -/
theorem session_makes {batches : List Batch} {work : Effect (Executor (σ × List Call)) Unit}
    (hwork : Makes batches work) (launcher : Launcher σ) (state : σ) :
    ∃ result calls closed closing, Made batches result calls ∧ Shut closed closing ∧
      ((session launcher.recording work).run (state, [])).1 = result.bind (fun _ => closed) ∧
      ((session launcher.recording work).run (state, [])).2.2 = calls ++ closing := by
  obtain ⟨-, calls, hcalls, hmade⟩ := hwork (.idle (state, [])) Phase.noConfusion
  obtain ⟨closing, hclosing, hshut⟩ := shut_close launcher (work.run (.idle (state, []))).2
  refine ⟨_, calls, _, closing, hmade, hshut, ?_, hclosing.trans (congrArg (· ++ closing) hcalls)⟩
  rcases hrun : work.run (.idle (state, [])) with ⟨error | ⟨⟩, executor⟩
  · rw [run_session_error hrun]
    rfl
  · rw [run_session_ok hrun]
    dsimp only [Except.bind]
    rcases ((close launcher.recording).run executor).1 with _ | _ <;> rfl

end Executor

theorem Made.outcome {batches : List Batch} {result closed : Except ExecutionError Unit}
    {calls closing : List Call} (hmade : Made batches result calls) (hshut : Executor.Shut closed closing) :
    ((result.bind fun _ => closed) = .ok () ∧ ∀ call ∈ calls ++ closing, call.failure = none) ∨
      ∃ error, (result.bind fun _ => closed) = .error error ∧
        ∃ call ∈ calls ++ closing, call.failure = some error := by
  cases hmade with
  | @upTo _ last error succeeded failed ne_close ran =>
    exact .inr ⟨error, rfl, last, by simp, failed⟩
  | all succeeded ran =>
    cases hshut with
    | idle => exact .inl ⟨rfl, by simpa using succeeded⟩
    | running =>
      rcases closed with error | ⟨⟩
      · exact .inr ⟨error, rfl, ⟨.close, some error⟩, by simp [failure?], rfl⟩
      · refine .inl ⟨rfl, fun call hcall => ?_⟩
        rcases List.mem_append.mp hcall with hcall | hcall
        · exact succeeded call hcall
        · rw [List.mem_singleton.mp hcall]
          rfl

-- ---------------------------------------------------------------------------
-- The calls of an execution
-- ---------------------------------------------------------------------------

theorem failure?_eq_none {α : Type} {result : Except ExecutionError α} :
    failure? result = none ↔ ∃ a, result = .ok a := by
  cases result <;> simp [failure?]

theorem failure?_eq_some {α : Type} {result : Except ExecutionError α} {error : ExecutionError} :
    failure? result = some error ↔ result = .error error := by
  cases result <;> simp [failure?]

section

variable {σ : Type} (limit : PatternLimit) (launcher : Launcher σ) (shorthands : List String)
  (d : Document) (state : σ)

theorem failure?_recording :
    failure? ((executeUnder limit launcher shorthands d).run state).1 =
      failure? ((executeUnder limit launcher.recording shorthands d).forget.run (state, [])).1 := by
  have herases := executeUnder_recording limit launcher shorthands d (state, [])
  rw [← herases, Effect.run_forget]
  rcases ((executeUnder limit launcher.recording shorthands d).run (state, [])).1 with _ | _ <;> rfl

theorem callsOf_eq : callsOf limit launcher shorthands d state =
    ((executeUnder limit launcher.recording shorthands d).forget.run (state, [])).2.2 := by
  rw [Effect.run_forget, callsOf]

/-- An execution makes the calls of a session that runs the plan of its document, unless it stops before
the session. -/
theorem executeUnder_makes :
    (∃ error, (launcher.preflight = .error error ∨ compileShorthands limit shorthands = .error error) ∧
      failure? ((executeUnder limit launcher shorthands d).run state).1 = some error ∧
      callsOf limit launcher shorthands d state = []) ∨
    (launcher.preflight = .ok () ∧ compileShorthands limit shorthands = .ok () ∧
      ∃ result calls closed closing, Made (d.plan shorthands) result calls ∧
        Executor.Shut closed closing ∧
        failure? ((executeUnder limit launcher shorthands d).run state).1 =
          failure? (result.bind fun _ => closed) ∧
        callsOf limit launcher shorthands d state = calls ++ closing) := by
  have hpreflight : launcher.recording.preflight = launcher.preflight := rfl
  rw [failure?_recording, callsOf_eq, forget_executeUnder, Effect.run_ofExcept_bind, hpreflight]
  -- Nothing is asked of the launcher before both checks are passed.
  rcases launcher.preflight with error | ⟨⟩
  · exact .inl ⟨error, .inl rfl, rfl, rfl⟩
  dsimp only
  rw [Effect.run_ofExcept_bind]
  rcases compileShorthands limit shorthands with error | ⟨⟩
  · exact .inl ⟨error, .inr rfl, rfl, rfl⟩
  obtain ⟨result, calls, closed, closing, hmade, hshut, hresult, hcalls⟩ :=
    Executor.session_makes (Executor.makes_runAll launcher (d.plan shorthands)) launcher state
  exact .inr ⟨rfl, rfl, result, calls, closed, closing, hmade, hshut, congrArg failure? hresult, hcalls⟩

/-- Either nothing fails, or what fails first is what the execution fails with. -/
theorem executeUnder_outcome :
    ((∃ r, ((executeUnder limit launcher shorthands d).run state).1 = .ok r) ∧
      launcher.preflight = .ok () ∧ compileShorthands limit shorthands = .ok () ∧
      ∀ call ∈ callsOf limit launcher shorthands d state, call.failure = none) ∨
    ∃ error, ((executeUnder limit launcher shorthands d).run state).1 = .error error ∧
      (launcher.preflight = .error error ∨ compileShorthands limit shorthands = .error error ∨
        ∃ call ∈ callsOf limit launcher shorthands d state, call.failure = some error) := by
  obtain ⟨error, hstop, hfailure, -⟩ |
    ⟨hpreflight, hcompile, result, made, closed, closing, hmade, hshut, hfailure, hcalls⟩ :=
    executeUnder_makes limit launcher shorthands d state
  · refine .inr ⟨error, failure?_eq_some.mp hfailure, ?_⟩
    rw [← or_assoc]
    exact .inl hstop
  · rw [hcalls]
    obtain ⟨hok, hall⟩ | ⟨error, herror, hcall⟩ := hmade.outcome hshut
    · rw [hok] at hfailure
      exact .inl ⟨failure?_eq_none.mp hfailure, hpreflight, hcompile, hall⟩
    · rw [herror] at hfailure
      exact .inr ⟨error, failure?_eq_some.mp hfailure, .inr (.inr hcall)⟩

theorem compileShorthands_ne_shape (cause : ShapeError) :
    compileShorthands limit shorthands ≠ .error (.shape cause) := by
  intro h
  unfold compileShorthands at h
  split at h
  · cases h
  · split at h <;> cases h

end

/-- The runs of an execution are those of the plan of its document, in this order, whatever is answered.
After a run that fails there is no other, and without a failure before the end all of the plan is run. -/
theorem runs_follow_plan {σ : Type} (limit : PatternLimit) (launcher : Launcher σ)
    (shorthands : List String) (d : Document) (state : σ) :
    Call.batches (callsOf limit launcher shorthands d state) <+: d.plan shorthands ∧
    (∀ k batch error,
      (Call.runs (callsOf limit launcher shorthands d state))[k]? = some (batch, some error) →
      Call.batches (callsOf limit launcher shorthands d state) = (d.plan shorthands).take (k + 1)) ∧
    (launcher.preflight = .ok () → compileShorthands limit shorthands = .ok () →
      (∀ call ∈ callsOf limit launcher shorthands d state,
        call.request ≠ .close → call.failure = none) →
      Call.batches (callsOf limit launcher shorthands d state) = d.plan shorthands) := by
  obtain ⟨error, hstop, -, hcalls⟩ | ⟨-, -, result, made, closed, closing, hmade, hshut, -, hcalls⟩ :=
    executeUnder_makes limit launcher shorthands d state
  · rw [hcalls]
    refine ⟨List.nil_prefix, fun k batch error hk => (by cases hk), fun hpreflight hcompile _ => ?_⟩
    rw [hpreflight, hcompile] at hstop
    rcases hstop with hstop | hstop <;> cases hstop
  · have hruns : Call.runs (callsOf limit launcher shorthands d state) = Call.runs made := by
      rw [hcalls, Call.runs_append, hshut.runs_eq_nil, List.append_nil]
    have hbatches := congrArg (List.map Prod.fst) hruns
    rw [← Call.batches, ← Call.batches] at hbatches
    rw [hruns, hbatches]
    refine ⟨hmade.runs_prefix, fun k batch error hk => hmade.runs_of_error hk, fun _ _ hall => ?_⟩
    exact hmade.all_run fun call hcall => hall call (hcalls ▸ List.mem_append_left _ hcall)

/-- The tree that a walk leaves can always be built, and so an execution succeeds if all that it asks for
does. What it fails with is the error of something that it asked for, never one of its own making. -/
theorem succeeds_iff_calls_succeed {σ : Type} (limit : PatternLimit) (launcher : Launcher σ)
    (shorthands : List String) (d : Document) (state : σ) :
    (∀ executor store deferred executor',
      (Walk.visitAll launcher shorthands (Store.ofDocument d)).run executor =
        (.ok (store, deferred), executor') → ∃ r, (deferred.waiting.apply store).toDocument = .ok r) ∧
    ((∃ r, ((executeUnder limit launcher shorthands d).run state).1 = .ok r) ↔
      launcher.preflight = .ok () ∧ compileShorthands limit shorthands = .ok () ∧
        ∀ call ∈ callsOf limit launcher shorthands d state, call.failure = none) ∧
    (∀ error, ((executeUnder limit launcher shorthands d).run state).1 = .error error →
      launcher.preflight = .error error ∨ compileShorthands limit shorthands = .error error ∨
        ∃ call ∈ callsOf limit launcher shorthands d state, call.failure = some error) ∧
    (∀ cause, ((executeUnder limit launcher shorthands d).run state).1 = .error (.shape cause) →
      launcher.preflight = .error (.shape cause) ∨
        ∃ call ∈ callsOf limit launcher shorthands d state, call.failure = some (.shape cause)) := by
  have houtcome := executeUnder_outcome limit launcher shorthands d state
  generalize callsOf limit launcher shorthands d state = calls at houtcome ⊢
  generalize ((executeUnder limit launcher shorthands d).run state).1 = result at houtcome ⊢
  have herror : ∀ error, result = .error error → launcher.preflight = .error error ∨
      compileShorthands limit shorthands = .error error ∨
        ∃ call ∈ calls, call.failure = some error := by
    rintro error rfl
    obtain ⟨⟨r, hr⟩, -⟩ | ⟨error', herror', hcause⟩ := houtcome
    · cases hr
    · rwa [Except.error.inj herror']
  refine ⟨fun executor store deferred executor' hwalk => ?_, ⟨?_, ?_⟩, herror, fun cause hshape => ?_⟩
  · obtain ⟨steads, f, hended⟩ := exists_ended hwalk
    exact ⟨_, hended.toDocument_eq⟩
  · rintro ⟨r, rfl⟩
    obtain ⟨-, hsuccess⟩ | ⟨error, herror', -⟩ := houtcome
    · exact hsuccess
    · cases herror'
  · rintro ⟨hpreflight, hcompile, hcalls⟩
    obtain ⟨hok, -⟩ | ⟨error, -, hcause⟩ := houtcome
    · exact hok
    · rw [hpreflight, hcompile] at hcause
      obtain hcause | hcause | ⟨call, hcall, hfailure⟩ := hcause
      · cases hcause
      · cases hcause
      · rw [hcalls call hcall] at hfailure
        cases hfailure
  · obtain hpreflight | hcompile | hcall := herror _ hshape
    · exact .inl hpreflight
    · exact absurd hcompile (compileShorthands_ne_shape limit shorthands cause)
    · exact .inr hcall

end Literate
