import Literate.Proofs.Execution.Recording

/-!
# The course of a session

What goes on between an execution and its launcher follows a fixed course. The launcher is checked first.
An interpreter is launched when there are lines to be run and not before, it is given lines until there
are none left or a batch fails, and then it is closed, once. `traceOf` is what goes on in one execution,
event by event, noted by the launcher itself (`Launcher.noting`).

To have the check among the events it is an effect here like the others (`executeAfter`); a launcher whose
check only has a result is the special case without effects.

Main results:

* `runAll_running`: lines are run one after another up to the first batch that fails.
* `session_outcome`: the three courses that a session can take.
* `traceOf_course`: the courses that an execution can take, when an interpreter is launched, and which of
  several errors the execution fails with.
-/

namespace Literate

-- ---------------------------------------------------------------------------
-- Events
-- ---------------------------------------------------------------------------

/-- What goes on between an execution and its launcher, with the error if it failed. -/
inductive Event where
  | preflight (failure : Option ExecutionError)
  | launch (failure : Option ExecutionError)
  | run (batch : Batch) (failure : Option ExecutionError)
  | close (failure : Option ExecutionError)
deriving DecidableEq

/-- The error of an event that failed. -/
def Event.failure : Event → Option ExecutionError
  | .preflight failure | .launch failure | .run _ failure | .close failure => failure

/-- An effect that is noted as an event. -/
def Effect.noted {σ α : Type} (event : Option ExecutionError → Event) (x : Effect σ α) :
    Effect (σ × List Event) α :=
  fun (state, events) =>
    let (result, state) := x.run state
    (result, state, events ++ [event (failure? result)])

/-- The same launcher, which notes the events beside its state. -/
def Launcher.noting {σ : Type} (launcher : Launcher σ) : Launcher (σ × List Event) where
  preflight := launcher.preflight
  launch := launcher.launch.noted .launch
  run batch := (launcher.run batch).noted (.run batch)
  close := launcher.close.noted .close

/-- Executes a document after a check, which may have effects of its own. -/
def executeAfter {σ : Type} (check : Effect σ Unit) (limit : PatternLimit) (launcher : Launcher σ)
    (shorthands : List String) (d : Document) : Effect σ Document := do
  check
  .ofExcept (compileShorthands limit shorthands)
  let (store, deferred) ←
    Executor.session launcher (Walk.visitAll launcher shorthands (Store.ofDocument d))
  .ofExcept ((deferred.waiting.apply store).toDocument.mapError .shape)

/-- The events of an execution, from the check on. -/
def traceOf {σ : Type} (check : Effect σ Unit) (limit : PatternLimit) (launcher : Launcher σ)
    (shorthands : List String) (d : Document) (state : σ) : List Event :=
  ((executeAfter (check.noted .preflight) limit launcher.noting shorthands d).run (state, [])).2.2

section

variable {σ α : Type}

/-- An execution checks what its launcher says must hold. -/
theorem executeUnder_eq_executeAfter (limit : PatternLimit) (launcher : Launcher σ)
    (shorthands : List String) (d : Document) :
    executeUnder limit launcher shorthands d =
      executeAfter (.ofExcept launcher.preflight) limit launcher shorthands d :=
  rfl

theorem Effect.erases_noted (event : Option ExecutionError → Event) (x : Effect σ α) :
    Effect.Erases Prod.fst (x.noted event) x := fun _ => rfl

theorem Launcher.erases_noting (launcher : Launcher σ) :
    Launcher.Erases Prod.fst launcher.noting launcher :=
  ⟨launcher.launch.erases_noted _, fun batch => (launcher.run batch).erases_noted _,
    launcher.close.erases_noted _⟩

theorem executeAfter_eq (check : Effect σ Unit) (limit : PatternLimit) (launcher : Launcher σ)
    (shorthands : List String) (d : Document) :
    executeAfter check limit launcher shorthands d = (do
      check
      .ofExcept (compileShorthands limit shorthands)
      Executor.session launcher (OnePass.rewriteDocument launcher shorthands d)) := by
  rw [executeAfter, session_visitAll]

/-- Noting the events of an execution changes nothing else. -/
theorem executeAfter_noting (check : Effect σ Unit) (limit : PatternLimit) (launcher : Launcher σ)
    (shorthands : List String) (d : Document) :
    Effect.Erases Prod.fst (executeAfter (check.noted .preflight) limit launcher.noting shorthands d)
      (executeAfter check limit launcher shorthands d) := by
  have herases := launcher.erases_noting
  rw [executeAfter_eq, executeAfter_eq]
  refine .bind (check.erases_noted _) fun _ => .bind (.ofExcept _) fun _ => ?_
  exact Executor.erases_session herases (OnePass.erases_rewriteDocument herases shorthands d)

/-- But for its result, executing a document is running its plan in a session. -/
theorem forget_executeAfter (check : Effect σ Unit) (limit : PatternLimit) (launcher : Launcher σ)
    (shorthands : List String) (d : Document) :
    (executeAfter check limit launcher shorthands d).forget = (do
      check
      .ofExcept (compileShorthands limit shorthands)
      Executor.session launcher (Executor.runAll launcher (d.plan shorthands))) := by
  rw [executeAfter_eq, ← OnePass.forget_rewriteDocument, ← Executor.forget_session]
  simp only [Effect.forget, map_bind]

end

-- ---------------------------------------------------------------------------
-- Sessions
-- ---------------------------------------------------------------------------

namespace Executor

variable {σ : Type} (launcher : Launcher σ)

/-- The events of batches that are run without an error. -/
def ran (batches : List Batch) : List Event :=
  batches.map fun batch => .run batch none

theorem run_noting_running (batch : Batch) (state : σ) (events : List Event) :
    ∃ answer state', (run launcher.noting batch).forget.run ⟨.running, state, events⟩ =
      (answer, ⟨.running, state', events ++ [.run batch (failure? answer)]⟩) := by
  refine ⟨((launcher.run batch).run state).1.map fun _ => (), ((launcher.run batch).run state).2, ?_⟩
  rw [Effect.run_forget, failure?_map]
  rfl

/-- Lines are run one after another, up to the first batch that fails. -/
theorem runAll_running (batch : Batch) (batches : List Batch) (state : σ) (events : List Event) :
    ∃ before last result state',
      (runAll launcher.noting (batch :: batches)).run ⟨.running, state, events⟩ =
        (result, ⟨.running, state', events ++ (ran before ++ [.run last (failure? result)])⟩) := by
  induction batches generalizing batch state events with
  | nil =>
    obtain ⟨answer, state', hrun⟩ := run_noting_running launcher batch state events
    rw [runAll_singleton]
    exact ⟨[], batch, answer, state', hrun⟩
  | cons next batches ih =>
    obtain ⟨answer, state', hrun⟩ := run_noting_running launcher batch state events
    rw [runAll, Effect.run_bind, hrun]
    rcases answer with error | ⟨⟩
    · exact ⟨[], batch, .error error, state', rfl⟩
    · obtain ⟨before, last, result, state'', hrest⟩ :=
        ih next state' (events ++ [.run batch none])
      refine ⟨batch :: before, last, result, state'', hrest.trans ?_⟩
      rw [List.append_assoc]
      rfl

/-- The first lines of a session: an interpreter is launched for them. -/
theorem run_noting_idle (batch : Batch) (state : σ) (events : List Event) :
    (run launcher.noting batch).run ⟨.idle, state, events⟩ =
      match launcher.launch.run state with
      | (.error error, state') => (.error error, ⟨.idle, state', events ++ [.launch (some error)]⟩)
      | (.ok (), state') =>
        (run launcher.noting batch).run ⟨.running, state', events ++ [.launch none]⟩ := by
  have hidle : (run launcher.noting batch).run ⟨.idle, state, events⟩ =
      (call launcher.noting.launch >>= fun _ =>
        enter .running >>= fun _ => call (launcher.noting.run batch)).run ⟨.idle, state, events⟩ :=
    rfl
  have hlaunch : (call launcher.noting.launch).run ⟨.idle, state, events⟩ =
      ((launcher.launch.run state).1, ⟨.idle, (launcher.launch.run state).2,
        events ++ [.launch (failure? (launcher.launch.run state).1)]⟩) :=
    rfl
  rw [hidle, Effect.run_bind, hlaunch]
  rcases launcher.launch.run state with ⟨error | ⟨⟩, state'⟩
  · rfl
  · rfl

theorem runAll_idle (batch : Batch) (batches : List Batch) (state : σ) (events : List Event) :
    (runAll launcher.noting (batch :: batches)).run ⟨.idle, state, events⟩ =
      match launcher.launch.run state with
      | (.error error, state') => (.error error, ⟨.idle, state', events ++ [.launch (some error)]⟩)
      | (.ok (), state') =>
        (runAll launcher.noting (batch :: batches)).run
          ⟨.running, state', events ++ [.launch none]⟩ := by
  rw [runAll, Effect.run_bind, Effect.run_forget, run_noting_idle]
  rcases launcher.launch.run state with ⟨error | ⟨⟩, state'⟩
  · rfl
  · dsimp only
    rw [Effect.run_bind, Effect.run_forget]

/-- The courses of a session that runs lines, with what the session comes to. -/
inductive Course : List Batch → Except ExecutionError Unit → List Event → Prop where
  /-- There is nothing to be run, and no interpreter is needed. -/
  | idle : Course [] (.ok ()) []
  /-- The interpreter does not start. -/
  | unlaunched {batches : List Batch} (ne_nil : batches ≠ []) (error : ExecutionError) :
      Course batches (.error error) [.launch (some error)]
  /-- Batches are run up to the last or to the first that fails. What comes of it is `result`, and
  `closed` of the end. -/
  | launched {batches : List Batch} (ne_nil : batches ≠ []) (before : List Batch) (last : Batch)
      (result closed : Except ExecutionError Unit) :
      Course batches (result.bind fun _ => closed) (.launch none ::
        (ran before ++ [.run last (failure? result), .close (failure? closed)]))

/-- Running lines in a session takes one of these courses. -/
theorem session_outcome (batches : List Batch) (state : σ) (events : List Event) :
    ∃ result state' course, Course batches result course ∧
      (session launcher.noting (runAll launcher.noting batches)).run (state, events) =
        (result, state', events ++ course) := by
  rcases batches with _ | ⟨batch, batches⟩
  · exact ⟨.ok (), state, [], .idle, by rw [List.append_nil]; rfl⟩
  have hne := List.cons_ne_nil batch batches
  have hrun := runAll_idle launcher batch batches state events
  rcases hlaunch : launcher.launch.run state with ⟨error | ⟨⟩, state₁⟩
  · rw [hlaunch] at hrun
    exact ⟨_, state₁, _, .unlaunched hne error, run_session_error hrun⟩
  rw [hlaunch] at hrun
  obtain ⟨before, last, result, state₂, hall⟩ :=
    runAll_running launcher batch batches state₁ (events ++ [.launch none])
  refine ⟨result.bind fun _ => (launcher.close.run state₂).1, (launcher.close.run state₂).2, _,
    .launched hne before last result _, ?_⟩
  have hclose : ∀ noted, (close launcher.noting).run ⟨.running, state₂, noted⟩ =
      ((launcher.close.run state₂).1, ⟨.closed, (launcher.close.run state₂).2,
        noted ++ [.close (failure? (launcher.close.run state₂).1)]⟩) :=
    fun _ => rfl
  have hevents : ∀ failure closing, events ++ [.launch none] ++ (ran before ++ [.run last failure]) ++
      [.close closing] = events ++ .launch none :: (ran before ++ [.run last failure, .close closing]) :=
    fun _ _ => by simp only [List.append_assoc, List.cons_append, List.nil_append]
  rcases result with error | ⟨⟩
  · rw [run_session_error (hrun.trans hall), hclose, ← hevents]
    rfl
  · rw [run_session_ok (hrun.trans hall), hclose, ← hevents]
    rcases launcher.close.run state₂ with ⟨error | ⟨⟩, state₃⟩ <;> rfl

end Executor

-- ---------------------------------------------------------------------------
-- Executions
-- ---------------------------------------------------------------------------

/-- The forms that the events of an execution can take. -/
inductive Formed : List Event → Prop where
  /-- Only the check is made. -/
  | checked (failure : Option ExecutionError) : Formed [.preflight failure]
  /-- The interpreter does not start. -/
  | unlaunched (error : ExecutionError) : Formed [.preflight none, .launch (some error)]
  /-- Batches are run, of which only the last can fail, and then the interpreter is closed. -/
  | launched (before : List Batch) (last : Batch) (failure closing : Option ExecutionError) :
      Formed (.preflight none :: .launch none ::
        (Executor.ran before ++ [.run last failure, .close closing]))

namespace Executor.Course

variable {batches : List Batch} {result : Except ExecutionError Unit} {course : List Event}

theorem formed (h : Course batches result course) : Formed (.preflight none :: course) := by
  cases h with
  | idle => exact .checked none
  | unlaunched ne_nil error => exact .unlaunched error
  | launched ne_nil before last result closed => exact .launched before last _ _

/-- An interpreter is asked for exactly if there is something to be run. -/
theorem exists_launch (h : Course batches result course) :
    (∃ failure, .launch failure ∈ course) ↔ batches ≠ [] := by
  cases h with
  | idle => simp
  | unlaunched ne_nil error => exact iff_of_true ⟨_, List.mem_singleton_self _⟩ ne_nil
  | launched ne_nil before last result closed => exact iff_of_true ⟨_, List.mem_cons_self⟩ ne_nil

theorem findSome?_ran (before : List Batch) : (ran before).findSome? Event.failure = none := by
  simp [ran, Event.failure]

/-- A session fails with the first error there is. -/
theorem findSome?_failure (h : Course batches result course) :
    course.findSome? Event.failure = failure? result := by
  cases h with
  | idle => rfl
  | unlaunched ne_nil error => rfl
  | launched ne_nil before last result closed =>
    rw [List.findSome?_cons_of_isNone rfl, List.findSome?_append, findSome?_ran]
    rcases result with error | ⟨⟩
    · rfl
    · rcases closed with error | ⟨⟩ <;> rfl

end Executor.Course

theorem Document.plan_ne_nil {shorthands : List String} {d : Document} :
    d.plan shorthands ≠ [] ↔ ∃ n ∈ d.postOrder, (Dispatch.batch? shorthands n).isSome := by
  simp [plan, List.filterMap_eq_nil_iff, Option.isSome_iff_ne_none]

section

variable {σ : Type} (check : Effect σ Unit) (limit : PatternLimit) (launcher : Launcher σ)
  (shorthands : List String) (d : Document) (state : σ)

/-- The events of an execution, and the error it fails with, are those of its plan. -/
theorem executeAfter_plan :
    let planned := (check.noted .preflight >>= fun _ => .ofExcept (compileShorthands limit shorthands)
      >>= fun _ => Executor.session launcher.noting (Executor.runAll launcher.noting (d.plan shorthands)))
    failure? ((executeAfter check limit launcher shorthands d).run state).1 =
        failure? (planned.run (state, [])).1 ∧
      traceOf check limit launcher shorthands d state = (planned.run (state, [])).2.2 := by
  intro planned
  have hplan := forget_executeAfter (check.noted .preflight) limit launcher.noting shorthands d
  have hnoting := executeAfter_noting check limit launcher shorthands d (state, [])
  rw [← show _ = planned from hplan, Effect.run_forget, failure?_map, ← hnoting]
  exact ⟨rfl, rfl⟩

/-- An execution stops at its check, at a shorthand that cannot be compiled, or takes the course of a
session that runs the plan of its document. -/
theorem executeAfter_outcome :
    (∃ error, (check.run state).1 = .error error ∧
      failure? ((executeAfter check limit launcher shorthands d).run state).1 = some error ∧
      traceOf check limit launcher shorthands d state = [.preflight (some error)]) ∨
    (∃ error, compileShorthands limit shorthands = .error error ∧
      failure? ((executeAfter check limit launcher shorthands d).run state).1 = some error ∧
      traceOf check limit launcher shorthands d state = [.preflight none]) ∨
    ((check.run state).1 = .ok () ∧ compileShorthands limit shorthands = .ok () ∧
      ∃ result course, Executor.Course (d.plan shorthands) result course ∧
        failure? ((executeAfter check limit launcher shorthands d).run state).1 = failure? result ∧
        traceOf check limit launcher shorthands d state = .preflight none :: course) := by
  obtain ⟨hfailure, htrace⟩ := executeAfter_plan check limit launcher shorthands d state
  have hcheck : (check.noted .preflight).run (state, []) = ((check.run state).1, (check.run state).2,
      [.preflight (failure? (check.run state).1)]) :=
    rfl
  rw [hfailure, htrace, Effect.run_bind, hcheck]
  rcases check.run state with ⟨error | ⟨⟩, state'⟩
  · exact .inl ⟨error, rfl, rfl, rfl⟩
  dsimp only
  rw [Effect.run_ofExcept_bind]
  rcases compileShorthands limit shorthands with error | ⟨⟩
  · exact .inr (.inl ⟨error, rfl, rfl, rfl⟩)
  obtain ⟨result, state'', course, hcourse, hsession⟩ :=
    Executor.session_outcome launcher (d.plan shorthands) state' [.preflight none]
  refine .inr (.inr ⟨rfl, rfl, result, course, hcourse, ?_⟩)
  dsimp only [failure?]
  rw [hsession]
  exact ⟨rfl, rfl⟩

end

/-- The events of an execution have one of three forms. An interpreter is launched exactly if the check
passes, the shorthands compile and some node of the document is to be run. The first error among the
events is what the execution fails with, so that an error of the walk goes before one of the close. -/
theorem traceOf_course {σ : Type} (check : Effect σ Unit) (limit : PatternLimit) (launcher : Launcher σ)
    (shorthands : List String) (d : Document) (state : σ) :
    Formed (traceOf check limit launcher shorthands d state) ∧
    ((∃ failure, .launch failure ∈ traceOf check limit launcher shorthands d state) ↔
      (check.run state).1 = .ok () ∧ compileShorthands limit shorthands = .ok () ∧
        ∃ n ∈ d.postOrder, (Dispatch.batch? shorthands n).isSome) ∧
    (∀ error, (traceOf check limit launcher shorthands d state).findSome? Event.failure = some error →
      ((executeAfter check limit launcher shorthands d).run state).1 = .error error) ∧
    (∀ error executor, (check.run state).1 = .ok () → compileShorthands limit shorthands = .ok () →
      (Walk.visitAll launcher shorthands (Store.ofDocument d)).run (.idle (check.run state).2) =
        (.error error, executor) →
      ((executeAfter check limit launcher shorthands d).run state).1 = .error error) ∧
    executeUnder limit launcher shorthands d =
      executeAfter (.ofExcept launcher.preflight) limit launcher shorthands d := by
  have houtcome := executeAfter_outcome check limit launcher shorthands d state
  refine ⟨?_, ?_, ?_, ?_, executeUnder_eq_executeAfter ..⟩
  · obtain ⟨error, -, -, htrace⟩ | ⟨error, -, -, htrace⟩ | ⟨-, -, result, course, hcourse, -, htrace⟩ :=
      houtcome
    · exact htrace ▸ .checked (some error)
    · exact htrace ▸ .checked none
    · exact htrace ▸ hcourse.formed
  · rw [← Document.plan_ne_nil]
    obtain ⟨error, hcheck, -, htrace⟩ | ⟨error, hcompile, -, htrace⟩ |
      ⟨hcheck, hcompile, result, course, hcourse, -, htrace⟩ := houtcome
    · simp [htrace, hcheck]
    · simp [htrace, hcompile]
    · simp [htrace, hcheck, hcompile, hcourse.exists_launch]
  · intro error herror
    obtain ⟨error', -, hfailure, htrace⟩ | ⟨error', -, hfailure, htrace⟩ |
      ⟨-, -, result, course, hcourse, hfailure, htrace⟩ := houtcome
    · rw [htrace] at herror
      exact failure?_eq_some.mp (hfailure.trans herror)
    · rw [htrace] at herror
      cases herror
    · rw [htrace, List.findSome?_cons_of_isNone rfl, hcourse.findSome?_failure] at herror
      exact failure?_eq_some.mp (hfailure.trans herror)
  · intro error executor hcheck hcompile hwalk
    rcases hrun : check.run state with ⟨error' | ⟨⟩, state'⟩
    · rw [hrun] at hcheck
      cases hcheck
    · rw [hrun] at hwalk
      rw [executeAfter, Effect.run_bind_ok hrun, Effect.run_ofExcept_bind, hcompile]
      exact congrArg Prod.fst (Effect.run_bind_error (Executor.run_session_error hwalk))

end Literate
