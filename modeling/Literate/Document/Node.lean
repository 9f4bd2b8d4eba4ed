import Literate.Document.Basic

/-!
# Nodes and their children

A `Node` is a block, an inline or a metadata value. Whatever its kind, its children stand in a fixed
list of slots: a single child, a sequence, or a map (`Slot`). `Node.detach` takes the children out and
leaves a shell, `Node.attach` puts children into a shell; both are what lets a document be stored node
by node and built again.

`attach` asks for a slot of the right kind that holds nodes of the right family. Where it does not find
one it answers why (`ShapeError`), and the node as far as it had got: only a table has two slots, and
keeps the head that it was given before its rows were refused.
-/

namespace Literate

/-- The three families of nodes. -/
inductive Family where
  | block
  | inline
  | metadata
deriving DecidableEq, Inhabited

/-- The name of a family in messages. -/
def Family.name : Family → String
  | .block => "block"
  | .inline => "inline"
  | .metadata => "metadata"

/-- Any node of a document. -/
inductive Node where
  | block (block : Block)
  | inline (inline : Inline)
  | metadata (value : Metadata)

/-- What an empty place holds: the metadata value without text. -/
instance : Inhabited Node := ⟨.metadata (.str "")⟩

/-- A container of children. -/
inductive Slot (α : Type) where
  | single (child : α)
  | sequence (children : List α)
  | map (entries : List (String × α))

namespace Slot

variable {α β : Type}

/-- The children in a slot, in order. -/
def toList : Slot α → List α
  | single child => [child]
  | sequence children => children
  | map entries => entries.map (·.2)

/-- What a slot becomes when every child is replaced, in order. -/
def mapM {m : Type → Type} [Monad m] (f : α → m β) : Slot α → m (Slot β)
  | single child => return single (← f child)
  | sequence children => return sequence (← children.mapM f)
  | map entries => return map (← entries.mapM fun (key, child) => return (key, ← f child))

end Slot

/-- The kinds of slots. -/
inductive SlotKind where
  | single
  | sequence
  | map
deriving DecidableEq

def SlotKind.name : SlotKind → String
  | .single => "single"
  | .sequence => "sequence"
  | .map => "map"

/-- Why children do not fit a node. -/
inductive ShapeError where
  | family (expected found : Family)
  | slot (expected : SlotKind)
deriving DecidableEq

def ShapeError.message : ShapeError → String
  | .family expected found => s!"expected a {expected.name} node, found a {found.name} node"
  | .slot expected => s!"expected a {expected.name} child container"

namespace Node

def family : Node → Family
  | block _ => .block
  | inline _ => .inline
  | metadata _ => .metadata

/-- An empty container of a family: a `div`, a `span` or a metadata list. -/
def container : Family → Node
  | .block => .block (.div .empty [])
  | .inline => .inline (.span .empty [])
  | .metadata => .metadata (.list [])

-- ---------------------------------------------------------------------------
-- Taking children out
-- ---------------------------------------------------------------------------

def childrenOfBlock : Block → List (Slot Node)
  | .plain content | .paragraph content | .tableCell content | .heading _ _ content =>
    [.sequence (content.map inline)]
  | .blockQuote content | .listItem content | .tableRow content | .div _ content
  | .orderedList _ content | .bulletList content => [.sequence (content.map block)]
  | .table _ head rows => [.single (block head), .sequence (rows.map block)]
  | .codeBlock .. | .html _ | .rule => []

def childrenOfInline : Inline → List (Slot Node)
  | .emphasis content | .strong content | .strikethrough content | .link _ _ content
  | .image _ _ content | .span _ content => [.sequence (content.map inline)]
  | .text _ | .code .. | .math .. | .html _ | .softBreak | .hardBreak => []

def childrenOfMetadata : Metadata → List (Slot Node)
  | .inlines content => [.sequence (content.map inline)]
  | .blocks content => [.sequence (content.map block)]
  | .list items => [.sequence (items.map metadata)]
  | .map entries => [.map (entries.map fun (key, value) => (key, metadata value))]
  | .bool _ | .str _ => []

def children : Node → List (Slot Node)
  | block b => childrenOfBlock b
  | inline i => childrenOfInline i
  | metadata m => childrenOfMetadata m

/-- A block without its children; the head of a table becomes an empty row. -/
def shellOfBlock : Block → Block
  | .plain _ => .plain []
  | .paragraph _ => .paragraph []
  | .tableCell _ => .tableCell []
  | .heading level attr _ => .heading level attr []
  | .blockQuote _ => .blockQuote []
  | .listItem _ => .listItem []
  | .tableRow _ => .tableRow []
  | .div attr _ => .div attr []
  | .orderedList start _ => .orderedList start []
  | .bulletList _ => .bulletList []
  | .table alignments _ _ => .table alignments (.tableRow []) []
  | .codeBlock attr text => .codeBlock attr text
  | .html text => .html text
  | .rule => .rule

def shellOfInline : Inline → Inline
  | .emphasis _ => .emphasis []
  | .strong _ => .strong []
  | .strikethrough _ => .strikethrough []
  | .link dest title _ => .link dest title []
  | .image dest title _ => .image dest title []
  | .span attr _ => .span attr []
  | .text text => .text text
  | .code attr text => .code attr text
  | .math display text => .math display text
  | .html text => .html text
  | .softBreak => .softBreak
  | .hardBreak => .hardBreak

def shellOfMetadata : Metadata → Metadata
  | .inlines _ => .inlines []
  | .blocks _ => .blocks []
  | .list _ => .list []
  | .map _ => .map []
  | .bool value => .bool value
  | .str text => .str text

def shell : Node → Node
  | block b => block (shellOfBlock b)
  | inline i => inline (shellOfInline i)
  | metadata m => metadata (shellOfMetadata m)

/-- Takes a node apart into its shell and its children. -/
def detach (node : Node) : Node × List (Slot Node) :=
  (node.shell, node.children)

-- ---------------------------------------------------------------------------
-- Putting children in
-- ---------------------------------------------------------------------------

def toBlock : Node → Except ShapeError Block
  | block b => .ok b
  | other => .error (.family .block other.family)

def toInline : Node → Except ShapeError Inline
  | inline i => .ok i
  | other => .error (.family .inline other.family)

def toMetadata : Node → Except ShapeError Metadata
  | metadata m => .ok m
  | other => .error (.family .metadata other.family)

def firstSequence : List (Slot Node) → Except ShapeError (List Node)
  | .sequence nodes :: _ => .ok nodes
  | _ => .error (.slot .sequence)

def firstSingle : List (Slot Node) → Except ShapeError Node
  | .single node :: _ => .ok node
  | _ => .error (.slot .single)

def firstMap : List (Slot Node) → Except ShapeError (List (String × Node))
  | .map entries :: _ => .ok entries
  | _ => .error (.slot .map)

/-- The inlines of the first slot. -/
def firstInlines (slots : List (Slot Node)) : Except ShapeError (List Inline) := do
  (← firstSequence slots).mapM toInline

/-- The blocks of the first slot. -/
def firstBlocks (slots : List (Slot Node)) : Except ShapeError (List Block) := do
  (← firstSequence slots).mapM toBlock

/-- The metadata values by key of the first slot. -/
def firstEntries (slots : List (Slot Node)) : Except ShapeError (List (String × Metadata)) := do
  (← firstMap slots).mapM fun (key, node) => return (key, ← node.toMetadata)

/-- A refusal, with the node as far as its children had been put in. -/
structure AttachFailure where
  cause : ShapeError
  node : Node

/-- The answer of `attach` for a node with one slot: what `build` makes of its content, or the node
unchanged. -/
def attachOne {α : Type} (node : Node) (content : Except ShapeError α) (build : α → Node) :
    Except AttachFailure Node :=
  match content with
  | .ok content => .ok (build content)
  | .error cause => .error ⟨cause, node⟩

/-- A table with a head and rows put in. A head that fits stays in place when the rows do not. -/
def attachTable (alignments : List Alignment) (head : Block) (rows : List Block)
    (slots : List (Slot Node)) : Except AttachFailure Node :=
  match (do (← firstSingle slots).toBlock : Except ShapeError Block) with
  | .error cause => .error ⟨cause, block (.table alignments head rows)⟩
  | .ok head =>
    match firstBlocks slots.tail with
    | .error cause => .error ⟨cause, block (.table alignments head rows)⟩
    | .ok rows => .ok (block (.table alignments head rows))

/-- A block with children put in. -/
def attachBlock (b : Block) (slots : List (Slot Node)) : Except AttachFailure Node :=
  let inlines (build : List Inline → Block) :=
    attachOne (block b) (firstInlines slots) (block ∘ build)
  let blocks (build : List Block → Block) :=
    attachOne (block b) (firstBlocks slots) (block ∘ build)
  match b with
  | .plain _ => inlines .plain
  | .paragraph _ => inlines .paragraph
  | .tableCell _ => inlines .tableCell
  | .heading level attr _ => inlines (.heading level attr)
  | .blockQuote _ => blocks .blockQuote
  | .listItem _ => blocks .listItem
  | .tableRow _ => blocks .tableRow
  | .div attr _ => blocks (.div attr)
  | .orderedList start _ => blocks (.orderedList start)
  | .bulletList _ => blocks .bulletList
  | .table alignments head rows => attachTable alignments head rows slots
  | .codeBlock .. | .html _ | .rule => .ok (block b)

def attachInline (i : Inline) (slots : List (Slot Node)) : Except AttachFailure Node :=
  let inlines (build : List Inline → Inline) :=
    attachOne (inline i) (firstInlines slots) (inline ∘ build)
  match i with
  | .emphasis _ => inlines .emphasis
  | .strong _ => inlines .strong
  | .strikethrough _ => inlines .strikethrough
  | .link dest title _ => inlines (.link dest title)
  | .image dest title _ => inlines (.image dest title)
  | .span attr _ => inlines (.span attr)
  | .text _ | .code .. | .math .. | .html _ | .softBreak | .hardBreak => .ok (inline i)

def attachMetadata (m : Metadata) (slots : List (Slot Node)) : Except AttachFailure Node :=
  match m with
  | .inlines _ => attachOne (metadata m) (firstInlines slots) (metadata ∘ .inlines)
  | .blocks _ => attachOne (metadata m) (firstBlocks slots) (metadata ∘ .blocks)
  | .list _ =>
    attachOne (metadata m) (do (← firstSequence slots).mapM toMetadata) (metadata ∘ .list)
  | .map _ => attachOne (metadata m) (firstEntries slots) (metadata ∘ .map)
  | .bool _ | .str _ => .ok (metadata m)

/-- A node with children put in, in the order in which `detach` gives them. -/
def attach (node : Node) (slots : List (Slot Node)) : Except AttachFailure Node :=
  match node with
  | block b => attachBlock b slots
  | inline i => attachInline i slots
  | metadata m => attachMetadata m slots

end Node

namespace Document

/-- The two containers of a document: the metadata by key, then the blocks. -/
def children (d : Document) : List (Slot Node) :=
  [.map (d.metadata.map fun (key, value) => (key, .metadata value)),
    .sequence (d.blocks.map .block)]

/-- Builds a document from its two containers. -/
def ofChildren (slots : List (Slot Node)) : Except ShapeError Document := do
  let metadata ← Node.firstEntries slots
  let blocks ← Node.firstBlocks slots.tail
  return { metadata, blocks }

end Document

end Literate
