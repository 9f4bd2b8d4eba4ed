import Literate.Execution.Error

/-!
# The one interpreter of a run

A `Launcher` says how an interpreter is started, given lines and shut down; what it keeps between the
calls is its state `σ`. The `Executor` puts at most one interpreter to work: it starts when the first
lines are to be run, all lines go to it, and after the end of the session there is no other. A start
that fails leaves the executor as it was.
-/

namespace Literate

/-- Lines that are run together, and how their answer is shaped: with the lines themselves if `echo` is
set, with their prompts too if `repl` is. -/
structure Batch where
  lines : List String
  echo : Bool
  repl : Bool
deriving DecidableEq

/-- One line whose answer alone is of interest. -/
def Batch.expression (code : String) : Batch := ⟨[code], false, false⟩

/-- A computation that may fail, and changes a state even then. -/
abbrev Effect (σ α : Type) := ExceptT ExecutionError (StateM σ) α

/-- A result that is there already. -/
def Effect.ofExcept {σ α : Type} (result : Except ExecutionError α) : Effect σ α :=
  fun state => (result, state)

/-- How an interpreter is started, used and shut down. -/
structure Launcher (σ : Type) where
  /-- What must hold before a document is touched. -/
  preflight : Except ExecutionError Unit
  launch : Effect σ Unit
  run : Batch → Effect σ String
  close : Effect σ Unit

/-- Where the session stands. -/
inductive Phase where
  /-- No interpreter was needed so far. -/
  | idle
  | running
  | closed
deriving DecidableEq

/-- The state of an executor: where the session stands, and the launcher's own state. -/
structure Executor (σ : Type) where
  phase : Phase
  state : σ

namespace Executor

variable {σ : Type}

def idle (state : σ) : Executor σ := ⟨.idle, state⟩

def isStarted (executor : Executor σ) : Bool :=
  executor.phase = .running

/-- A call to the launcher. -/
def call {α : Type} (effect : Effect σ α) : Effect (Executor σ) α := fun executor =>
  let (result, state) := effect.run executor.state
  (result, { executor with state })

def enter (phase : Phase) : Effect (Executor σ) Unit :=
  modify fun executor => { executor with phase }

/-- Runs lines, on an interpreter that is started now if there is none. -/
def run (launcher : Launcher σ) (batch : Batch) : Effect (Executor σ) String := do
  match (← get).phase with
  | .closed => throw .closed
  | .running => call (launcher.run batch)
  | .idle =>
    call launcher.launch
    enter .running
    call (launcher.run batch)

/-- Runs one line and gives only what it printed. -/
def evaluate (launcher : Launcher σ) (code : String) : Effect (Executor σ) String :=
  run launcher (.expression code)

/-- Ends the session, and shuts the interpreter down if one is running. -/
def close (launcher : Launcher σ) : Effect (Executor σ) Unit := do
  let phase := (← get).phase
  enter .closed
  if phase = .running then call launcher.close

/-- Does work with an executor of its own. Its interpreter is started for the first lines that are run,
and shut down once, whether the work succeeds or not; of two errors that of the work is given. -/
def session {α : Type} (launcher : Launcher σ) (work : Effect (Executor σ) α) : Effect σ α :=
  fun state =>
    let (result, executor) := work.run (.idle state)
    let (closed, executor) := (close launcher).run executor
    (result.bind fun a => closed.map fun () => a, executor.state)

end Executor

end Literate
