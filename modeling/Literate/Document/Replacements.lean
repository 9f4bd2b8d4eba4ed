import Literate.Document.Store
import Literate.Document.Lift

/-!
# Replacements that wait

Some nodes of a document have to give way to others only after all of it was visited. `Replacements`
keeps what was recorded for them, the first record for a node being the one that counts; `apply` puts
it in, from the root downwards, each record fitted to the family of the node it replaces. What stands
below a replaced node is gone with it, so records on such nodes have no effect.

Putting nodes into slots follows one rule (`rewriteSlot`), which the walk over a document shares: a
sequence takes whatever replaces its members, a single place a container, and an entry of a map whose
value is replaced by nothing goes away.
-/

namespace Literate

/-- What the numbers in a slot become when `visit` gives, for each, the numbers to put in its place. -/
def rewriteSlot {m : Type → Type} [Monad m] (visit : NodeId → StateT Store m (List NodeId)) :
    Slot NodeId → StateT Store m (Slot NodeId)
  | .single id => do
    let family := (← get).family id
    let ids ← visit id
    return .single (← modifyGet (·.collapse family ids))
  | .sequence ids => return .sequence (← ids.mapM visit).flatten
  | .map entries => do
    let entries ← entries.mapM fun (key, id) => do
      let ids ← visit id
      let id ← modifyGet (·.collapseEntry ids)
      return id.map fun id => (key, id)
    return .map (entries.filterMap id)

/-- Rewrites the slots of an entry while the entry itself stands without them. -/
def rewriteBelow {m : Type → Type} [Monad m] (visit : NodeId → StateT Store m (List NodeId))
    (id : NodeId) : StateT Store m Unit := do
  let slots := (← get).slots id
  modify (·.setSlots id [])
  let slots ← slots.mapM (rewriteSlot visit)
  modify (·.setSlots id slots)

/-- Rewrites the containers of a document. -/
def rewriteRoot {m : Type → Type} [Monad m] (visit : NodeId → StateT Store m (List NodeId)) :
    StateT Store m Unit := do
  let root := (← get).root
  modify (·.setRoot [])
  let root ← root.mapM (rewriteSlot visit)
  modify (·.setRoot root)

/-- The nodes recorded for each number. -/
structure Replacements where
  entries : List (NodeId × List Node)

namespace Replacements

def empty : Replacements := ⟨[]⟩

def isEmpty (r : Replacements) : Bool := r.entries.isEmpty

def size (r : Replacements) : Nat := r.entries.length

def find? (r : Replacements) (id : NodeId) : Option (List Node) :=
  r.entries.lookup id

/-- Records nodes for a number that has none yet, and says whether it did. -/
def record (r : Replacements) (id : NodeId) (nodes : List Node) : Bool × Replacements :=
  match r.find? id with
  | some _ => (false, r)
  | none => (true, ⟨(id, nodes) :: r.entries⟩)

def erase (r : Replacements) (id : NodeId) : Replacements :=
  ⟨r.entries.filter (·.1 ≠ id)⟩

/-- A bound on the entries that putting the records in can add to a store. -/
def growth (r : Replacements) : Nat :=
  r.entries.foldr (fun (_, nodes) bound => 2 + 2 * Node.sizeOfAll nodes + bound) 0

/-- How far putting the records in has come: what is still recorded, and the numbers whose records were
put in, the latest first. -/
structure Progress where
  left : Replacements
  done : List NodeId

/-- Takes out the record of a number that is being put in. -/
def Progress.finish (progress : Progress) (id : NodeId) : Progress :=
  ⟨progress.left.erase id, id :: progress.done⟩

/-- Puts records in at a number and below it, and gives the numbers that stand there afterwards. Every
level takes the slots of an entry that had some, so `depth` need not exceed the number of entries. -/
def applyNode : Nat → NodeId → StateT Store (StateM Progress) (List NodeId)
  | 0, id => pure [id]
  | depth + 1, id => do
    match (← getThe Progress).left.find? id with
    | some nodes =>
      modifyThe Progress (·.finish id)
      let family := (← getThe Store).family id
      (lift family nodes).mapM fun node => modifyGetThe Store (·.insert node)
    | none =>
      rewriteBelow (applyNode depth) id
      return [id]

/-- Puts every record in whose node can be reached from the root. What is left over in the end is
dropped. -/
def applyAll (r : Replacements) (store : Store) : Store × Progress :=
  if r.isEmpty then (store, ⟨r, []⟩)
  else
    let depth := store.size + r.growth + 1
    let ((_, store), progress) := ((rewriteRoot (applyNode depth)).run store).run ⟨r, []⟩
    (store, progress)

def apply (r : Replacements) (store : Store) : Store :=
  (r.applyAll store).1

end Replacements

end Literate
