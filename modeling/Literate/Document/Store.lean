import Literate.Document.Node

/-!
# Documents node by node

A `Store` keeps every node of a document in an entry of its own, as a shell, with the numbers of its
children in place of the children. Numbers are given out in pre-order when a document is put in
(`Store.ofDocument`), and an entry never moves, so a number names its node however the tree around it is
edited. `Store.toDocument` builds a document again.

Every entry is used once: building takes a node out of its entry and leaves an empty place, so that a
store in which a number occurs twice, or below itself, still gives a document.
-/

namespace Literate

/-- The number of an entry of a store. -/
abbrev NodeId := Nat

namespace Node

mutual

def sizeOfInline : Inline → Nat
  | .emphasis content | .strong content | .strikethrough content | .link _ _ content
  | .image _ _ content | .span _ content => 1 + sizeOfInlines content
  | .text _ | .code .. | .math .. | .html _ | .softBreak | .hardBreak => 1

def sizeOfInlines : List Inline → Nat
  | [] => 0
  | i :: is => sizeOfInline i + sizeOfInlines is

end

mutual

def sizeOfBlock : Block → Nat
  | .plain content | .paragraph content | .tableCell content | .heading _ _ content =>
    1 + sizeOfInlines content
  | .blockQuote content | .listItem content | .tableRow content | .div _ content
  | .orderedList _ content | .bulletList content => 1 + sizeOfBlocks content
  | .table _ head rows => 1 + (sizeOfBlock head + sizeOfBlocks rows)
  | .codeBlock .. | .html _ | .rule => 1

def sizeOfBlocks : List Block → Nat
  | [] => 0
  | b :: bs => sizeOfBlock b + sizeOfBlocks bs

end

mutual

def sizeOfMetadata : Metadata → Nat
  | .inlines content => 1 + sizeOfInlines content
  | .blocks content => 1 + sizeOfBlocks content
  | .list items => 1 + sizeOfList items
  | .map entries => 1 + sizeOfMap entries
  | .bool _ | .str _ => 1

def sizeOfList : List Metadata → Nat
  | [] => 0
  | m :: ms => sizeOfMetadata m + sizeOfList ms

def sizeOfMap : List (String × Metadata) → Nat
  | [] => 0
  | (_, m) :: entries => sizeOfMetadata m + sizeOfMap entries

end

/-- The number of nodes in a tree: the node itself and all below it. -/
def size : Node → Nat
  | block b => sizeOfBlock b
  | inline i => sizeOfInline i
  | metadata m => sizeOfMetadata m

def sizeOfAll : List Node → Nat
  | [] => 0
  | node :: nodes => node.size + sizeOfAll nodes

def sizeOfSlots : List (Slot Node) → Nat
  | [] => 0
  | slot :: slots => sizeOfAll slot.toList + sizeOfSlots slots

theorem sizeOfAll_inlines (is : List Inline) : sizeOfAll (is.map inline) = sizeOfInlines is := by
  induction is with
  | nil => rfl
  | cons i is ih => simpa [sizeOfAll, sizeOfInlines, size] using ih

theorem sizeOfAll_blocks (bs : List Block) : sizeOfAll (bs.map block) = sizeOfBlocks bs := by
  induction bs with
  | nil => rfl
  | cons b bs ih => simpa [sizeOfAll, sizeOfBlocks, size] using ih

theorem sizeOfAll_list (ms : List Metadata) : sizeOfAll (ms.map metadata) = sizeOfList ms := by
  induction ms with
  | nil => rfl
  | cons m ms ih => simpa [sizeOfAll, sizeOfList, size] using ih

theorem sizeOfAll_map (entries : List (String × Metadata)) :
    sizeOfAll ((entries.map fun (key, value) => (key, metadata value)).map (·.2)) =
      sizeOfMap entries := by
  induction entries with
  | nil => rfl
  | cons entry entries ih => simpa [sizeOfAll, sizeOfMap, size] using ih

/-- A tree is its root and what stands in the root's slots. -/
theorem size_eq (node : Node) : node.size = 1 + sizeOfSlots node.children := by
  match node with
  | block b =>
    cases b <;> simp [size, sizeOfBlock, children, childrenOfBlock, sizeOfSlots, Slot.toList,
      sizeOfAll_inlines, sizeOfAll_blocks]
    simp [sizeOfAll, size]
  | inline i =>
    cases i <;> simp [size, sizeOfInline, children, childrenOfInline, sizeOfSlots, Slot.toList,
      sizeOfAll_inlines]
  | metadata m =>
    cases m with
    | map entries =>
      simp only [size, sizeOfMetadata, children, childrenOfMetadata, sizeOfSlots, Slot.toList,
        sizeOfAll_map, Nat.add_zero]
    | _ => simp [size, sizeOfMetadata, children, childrenOfMetadata, sizeOfSlots, Slot.toList,
        sizeOfAll_inlines, sizeOfAll_blocks, sizeOfAll_list]

theorem size_pos (node : Node) : 0 < node.size := by
  rw [size_eq]; omega

end Node

/-- A node without its children, and the numbers of its children. -/
structure Entry where
  node : Node
  slots : List (Slot NodeId)

/-- An empty place. -/
instance : Inhabited Entry := ⟨⟨default, []⟩⟩

/-- The nodes of a document by number, and the numbers in the document's own containers. -/
structure Store where
  entries : Array Entry
  root : List (Slot NodeId)

namespace Store

def empty : Store := ⟨#[], []⟩

def size (store : Store) : Nat := store.entries.size

def isEmpty (store : Store) : Bool := store.entries.isEmpty

/-- The entry with a number; a number that was never given out names an empty place. -/
def entry (store : Store) (id : NodeId) : Entry :=
  store.entries[id]?.getD default

/-- The node with a number, without its children. -/
def node (store : Store) (id : NodeId) : Node := (store.entry id).node

def slots (store : Store) (id : NodeId) : List (Slot NodeId) := (store.entry id).slots

def family (store : Store) (id : NodeId) : Family := (store.node id).family

def modify (store : Store) (id : NodeId) (f : Entry → Entry) : Store :=
  { store with entries := store.entries.modify id f }

def setNode (store : Store) (id : NodeId) (node : Node) : Store :=
  store.modify id fun entry => { entry with node }

def setSlots (store : Store) (id : NodeId) (slots : List (Slot NodeId)) : Store :=
  store.modify id fun entry => { entry with slots }

def setRoot (store : Store) (root : List (Slot NodeId)) : Store :=
  { store with root }

/-- Adds an entry, with the next number. -/
def push (store : Store) (node : Node) : Store :=
  { store with entries := store.entries.push ⟨node, []⟩ }

-- ---------------------------------------------------------------------------
-- Putting nodes in
-- ---------------------------------------------------------------------------

/-- The number of places in slots, which bounds how often insertion goes on at one level. -/
def places : List (Slot Node) → Nat
  | [] => 0
  | slot :: slots => slot.toList.length + 2 + places slots

mutual

/-- Stores a node and then its children, slot by slot. The node gets the first of the new numbers. -/
def insert (store : Store) (node : Node) : NodeId × Store :=
  let (slots, filled) := insertSlots (store.push node.shell) node.children
  (store.size, filled.setSlots store.size slots)
termination_by (node.size, 0)
decreasing_by
  exact Prod.Lex.left _ _ (by rw [Node.size_eq node]; omega)

def insertAll (store : Store) : List Node → List NodeId × Store
  | [] => ([], store)
  | node :: nodes =>
    let (id, store) := insert store node
    let (ids, store) := insertAll store nodes
    (id :: ids, store)
termination_by nodes => (Node.sizeOfAll nodes, nodes.length + 1)
decreasing_by
  · exact Prod.Lex.right' _ (by simp [Node.sizeOfAll]) (by omega)
  · exact Prod.Lex.left _ _ (by have := node.size_pos; simp [Node.sizeOfAll]; omega)

def insertEntries (store : Store) : List (String × Node) → List (String × NodeId) × Store
  | [] => ([], store)
  | (key, node) :: entries =>
    let (id, store) := insert store node
    let (ids, store) := insertEntries store entries
    ((key, id) :: ids, store)
termination_by entries => (Node.sizeOfAll (entries.map (·.2)), entries.length + 1)
decreasing_by
  · exact Prod.Lex.right' _ (by simp [Node.sizeOfAll]) (by omega)
  · exact Prod.Lex.left _ _ (by have := node.size_pos; simp [Node.sizeOfAll]; omega)

def insertSlots (store : Store) : List (Slot Node) → List (Slot NodeId) × Store
  | [] => ([], store)
  | .single node :: slots =>
    let (id, store) := insert store node
    let (rest, store) := insertSlots store slots
    (.single id :: rest, store)
  | .sequence nodes :: slots =>
    let (ids, store) := insertAll store nodes
    let (rest, store) := insertSlots store slots
    (.sequence ids :: rest, store)
  | .map entries :: slots =>
    let (ids, store) := insertEntries store entries
    let (rest, store) := insertSlots store slots
    (.map ids :: rest, store)
termination_by slots => (Node.sizeOfSlots slots, places slots)
decreasing_by
  all_goals
    exact Prod.Lex.right' _ (by simp [Node.sizeOfSlots, Node.sizeOfAll, Slot.toList])
      (by simp [places, Slot.toList] <;> omega)

end

/-- Puts a document into a new store. -/
def ofDocument (d : Document) : Store :=
  let (root, store) := insertSlots empty d.children
  store.setRoot root

-- ---------------------------------------------------------------------------
-- One place for several nodes
-- ---------------------------------------------------------------------------

/-- Fits a run of nodes into a single place of a family. One node is used as it is; otherwise the run
goes into a new container. -/
def collapse (store : Store) (family : Family) (ids : List NodeId) : NodeId × Store :=
  match ids with
  | [id] => (id, store)
  | _ =>
    let (container, store) := store.insert (Node.container family)
    (container, store.setSlots container [.sequence ids])

/-- Fits a run of nodes into an entry of a map. An empty run removes the entry, several nodes become a
list. -/
def collapseEntry (store : Store) (ids : List NodeId) : Option NodeId × Store :=
  if ids.isEmpty then (none, store)
  else
    let (id, store) := store.collapse .metadata ids
    (some id, store)

-- ---------------------------------------------------------------------------
-- Building a document
-- ---------------------------------------------------------------------------

/-- Takes an entry out and leaves an empty place. -/
def take (store : Store) (id : NodeId) : Entry × Store :=
  (store.entry id, store.modify id fun _ => default)

/-- Builds the tree below a number, at most `depth` levels of it. A level takes the slots of an entry
that had some, so there are never more levels than entries. -/
def build : Nat → NodeId → StateT Store (Except ShapeError) Node
  | 0, _ => pure default
  | depth + 1, id => do
    let entry ← modifyGet (take · id)
    let slots ← entry.slots.mapM (Slot.mapM (build depth))
    match entry.node.attach slots with
    | .ok node => pure node
    | .error failure => throw failure.cause

/-- Builds the document that a store holds. -/
def toDocument (store : Store) : Except ShapeError Document := do
  let build := store.root.mapM (Slot.mapM (build (store.size + 1)))
  Document.ofChildren (← build.run' store)

end Store

end Literate
