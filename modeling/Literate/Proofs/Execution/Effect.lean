import Literate.Execution.Executor
import Mathlib

/-!
# Running effects

An effect either fails or gives a result, and leaves a state in both cases. What would follow a failure
is not done. A session closes its executor whatever the work came to.
-/

namespace Literate

namespace Effect

variable {σ α β : Type} {x : Effect σ α} {f : α → Effect σ β} {state state' : σ}
  {error : ExecutionError} {a : α}

theorem run_bind (x : Effect σ α) (f : α → Effect σ β) (state : σ) :
    (x >>= f).run state =
      match x.run state with
      | (.ok a, state') => (f a).run state'
      | (.error error, state') => (.error error, state') := by
  have hrun : (x >>= f).run state = ExceptT.bindCont f (x.run state).1 (x.run state).2 := rfl
  rw [hrun]
  rcases x.run state with ⟨_ | _, _⟩ <;> rfl

theorem run_bind_error (h : x.run state = (.error error, state')) :
    (x >>= f).run state = (.error error, state') := by
  rw [run_bind, h]

theorem run_bind_ok (h : x.run state = (.ok a, state')) :
    (x >>= f).run state = (f a).run state' := by
  rw [run_bind, h]

theorem run_ofExcept_bind (result : Except ExecutionError α) (f : α → Effect σ β) (state : σ) :
    (ofExcept result >>= f).run state =
      match result with
      | .ok a => (f a).run state
      | .error error => (.error error, state) := by
  cases result <;> rfl

theorem run_map (x : Effect σ α) (f : α → β) (state : σ) :
    (f <$> x).run state = ((x.run state).1.map f, (x.run state).2) := by
  show (ExceptT.run (f <$> x)).run state = _
  rw [ExceptT.run_map]
  rfl

/-- What is done by an effect, without its result. -/
def forget (x : Effect σ α) : Effect σ Unit :=
  (fun _ => ()) <$> x

theorem run_forget (x : Effect σ α) (state : σ) :
    x.forget.run state = ((x.run state).1.map fun _ => (), (x.run state).2) :=
  run_map x _ state

/-- What follows may depend on the result if its own effects do not. -/
theorem forget_bind {y : Effect σ Unit} (h : ∀ a, (f a).forget = y) :
    (x >>= f).forget = x.forget >>= fun _ => y := by
  rw [forget, map_bind, forget, bind_map_left]
  exact bind_congr h

theorem forget_map (x : Effect σ α) (f : α → β) : (f <$> x).forget = x.forget := by
  rw [forget, forget, Functor.map_map]

end Effect

namespace Executor

variable {σ α : Type} {launcher : Launcher σ} {work : Effect (Executor σ) α} {state : σ}
  {executor : Executor σ} {error : ExecutionError} {a : α}

theorem run_session (launcher : Launcher σ) (work : Effect (Executor σ) α) (state : σ) :
    (session launcher work).run state =
      ((work.run (.idle state)).1.bind fun a =>
          ((close launcher).run (work.run (.idle state)).2).1.map fun () => a,
        ((close launcher).run (work.run (.idle state)).2).2.state) :=
  rfl

/-- Work that fails: the session fails with it, after it has closed the executor. -/
theorem run_session_error (h : work.run (.idle state) = (.error error, executor)) :
    (session launcher work).run state = (.error error, ((close launcher).run executor).2.state) := by
  rw [run_session, h]
  rfl

/-- Work that succeeds: the session succeeds if the executor can be closed. -/
theorem run_session_ok (h : work.run (.idle state) = (.ok a, executor)) :
    (session launcher work).run state =
      (((close launcher).run executor).1.map fun () => a,
        ((close launcher).run executor).2.state) := by
  rw [run_session, h]
  rfl

/-- A session does what is to be done, whatever the result is worth. -/
theorem forget_session (work : Effect (Executor σ) α) :
    (session launcher work).forget = session launcher work.forget := by
  funext state
  refine (Effect.run_forget ..).trans ?_
  rcases hwork : work.run (.idle state) with ⟨error | a, executor⟩
  · have hforget : work.forget.run (.idle state) = (.error error, executor) := by
      rw [Effect.run_forget, hwork]
      rfl
    rw [run_session_error hwork]
    exact (run_session_error hforget).symm
  · have hforget : work.forget.run (.idle state) = (.ok (), executor) := by
      rw [Effect.run_forget, hwork]
      rfl
    rw [run_session_ok hwork]
    refine Eq.trans ?_ (run_session_ok hforget).symm
    rcases ((close launcher).run executor).1 with _ | _ <;> rfl

/-- Runs lines and leaves the answers alone. -/
def runAll (launcher : Launcher σ) : List Batch → Effect (Executor σ) Unit
  | [] => return
  | batch :: batches => do
    (run launcher batch).forget
    runAll launcher batches

theorem runAll_singleton (batch : Batch) : runAll launcher [batch] = (run launcher batch).forget := by
  rw [runAll, runAll, Effect.forget]
  exact bind_pure _

theorem runAll_append (first second : List Batch) :
    runAll launcher (first ++ second) = (do runAll launcher first; runAll launcher second) := by
  induction first with
  | nil => rw [List.nil_append, runAll, pure_bind]
  | cons batch first ih => rw [List.cons_append, runAll, runAll, ih, bind_assoc]

end Executor

end Literate
