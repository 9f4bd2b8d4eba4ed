import Literate.Document.Replacements
import Literate.Execution.Dispatch

/-!
# Executing a document

`execute` runs the code of a document in reading order, each node after its children, and builds the
document from the answers. What a node gives way to goes into its place if it fits there. Blocks cannot
stand in the place of an inline: they are kept back (`deferTo`) for the nearest node around it that is
no inline, and put in when all code has run. Nothing that an answer brings in is run itself.

What was kept back and will not be put in is logged (`Loss`).
-/

namespace Literate

/-- Why nodes that were kept back are not put in. -/
inductive Loss where
  /-- No node around the one they replace can give way to them. -/
  | orphan (nodes : List Node)
  /-- Others wait already for the node that would give way to them. -/
  | late (target : NodeId) (nodes : List Node)

/-- The replacements that wait for the end of a walk, and those that were lost, the latest first. -/
structure Deferred where
  waiting : Replacements
  lost : List Loss

namespace Deferred

def empty : Deferred := ⟨.empty, []⟩

/-- Keeps nodes back for a target. Of several replacements for one target the first stays. -/
def add (deferred : Deferred) (target : Option NodeId) (nodes : List Node) : Deferred :=
  match target with
  | none => { deferred with lost := .orphan nodes :: deferred.lost }
  | some target =>
    match deferred.waiting.record target nodes with
    | (true, waiting) => { deferred with waiting }
    | (false, waiting) => ⟨waiting, .late target nodes :: deferred.lost⟩

end Deferred

/-- A step of the walk: it changes the store, records replacements that have to wait, and runs code. -/
abbrev Walk (σ α : Type) :=
  StateT Store (StateT Deferred (ExceptT ExecutionError (StateM (Executor σ)))) α

namespace Walk

variable {σ : Type}

/-- Keeps nodes back for the nearest of the nodes around that is no inline; `around` holds them,
innermost first. -/
def deferTo (around : List NodeId) (nodes : List Node) : Walk σ Unit := do
  let store ← getThe Store
  let target := around.find? fun id => store.family id ≠ .inline
  modifyThe Deferred (·.add target nodes)

/-- Runs the code at a number and below it, and gives the numbers that stand there afterwards. Every
level takes the slots of an entry that had some, so `depth` need not exceed the number of entries. -/
def visit (launcher : Launcher σ) (shorthands : List String) :
    Nat → List NodeId → NodeId → Walk σ (List NodeId)
  | 0, _, id => pure [id]
  | depth + 1, around, id => do
    rewriteBelow (visit launcher shorthands depth (id :: around)) id
    match ← dispatch launcher shorthands ((← getThe Store).node id) with
    | .keep node =>
      modifyThe Store (·.setNode id node)
      return [id]
    | .replace nodes =>
      match resolve ((← getThe Store).family id) nodes with
      | .splice nodes => nodes.mapM fun node => modifyGetThe Store (·.insert node)
      | .defer nodes =>
        deferTo around nodes
        return [id]

/-- Runs all code of a store, and gives the replacements that wait. -/
def visitAll (launcher : Launcher σ) (shorthands : List String) (store : Store) :
    Effect (Executor σ) (Store × Deferred) := do
  let walk : Walk σ Unit := rewriteRoot (visit launcher shorthands (store.size + 1) [])
  let ((_, store), deferred) ← (walk.run store).run .empty
  return (store, deferred)

end Walk

/-- Executes a document, with a limit on the patterns that can be compiled. -/
def executeUnder {σ : Type} (limit : PatternLimit) (launcher : Launcher σ)
    (shorthands : List String) (d : Document) : Effect σ Document := do
  .ofExcept launcher.preflight
  .ofExcept (compileShorthands limit shorthands)
  let (store, deferred) ←
    Executor.session launcher (Walk.visitAll launcher shorthands (Store.ofDocument d))
  .ofExcept ((deferred.waiting.apply store).toDocument.mapError .shape)

/-- Executes a document, where no pattern is too big. -/
def execute {σ : Type} (launcher : Launcher σ) (shorthands : List String) (d : Document) :
    Effect σ Document :=
  executeUnder (fun _ => none) launcher shorthands d

end Literate
