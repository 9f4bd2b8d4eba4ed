import Literate.Document.Node
import Literate.Document.Flatten

/-!
# Fitting nodes into a place

The result of executed code can be nodes of any family, and the place they go to belongs to one.

* `lift` converts nodes to a family: inlines become blocks by wrapping each run of them in a `plain`
  block, blocks become inlines by flattening, and metadata takes the whole list as one value.
* `resolve` says where a replacement can go. Blocks and metadata can take any nodes once they are
  lifted; an inline can only give way to inlines, so anything else is deferred to a node around it.
-/

namespace Literate

def boolText (b : Bool) : String :=
  if b then "true" else "false"

mutual

def Metadata.toBlocks : Metadata → List Block
  | .bool value => [.plain [.text (boolText value)]]
  | .str text => [.plain [.text text]]
  | .inlines content => [.plain content]
  | .blocks content => content
  | .list items => listToBlocks items
  | .map entries => mapToBlocks entries

def listToBlocks : List Metadata → List Block
  | [] => []
  | item :: items => item.toBlocks ++ listToBlocks items

def mapToBlocks : List (String × Metadata) → List Block
  | [] => []
  | (_, value) :: entries => value.toBlocks ++ mapToBlocks entries

end

/-- A run of inlines as a block, nothing if it is empty. -/
def plainRun (run : List Inline) : List Block :=
  if run.isEmpty then [] else [.plain run]

/-- Nodes as blocks; `run` holds the inlines that stand in front. -/
def blocksAfter (run : List Inline) : List Node → List Block
  | [] => plainRun run
  | .inline i :: nodes => blocksAfter (run ++ [i]) nodes
  | .block b :: nodes => plainRun run ++ b :: blocksAfter [] nodes
  | .metadata m :: nodes => plainRun run ++ m.toBlocks ++ blocksAfter [] nodes

/-- Nodes as blocks: each maximal run of inlines becomes one `plain` block. -/
def toBlocks (nodes : List Node) : List Block :=
  blocksAfter [] nodes

/-- Nodes as inlines; `run` holds the blocks that stand in front. -/
def inlinesAfter (run : List Block) : List Node → List Inline
  | [] => flattenBlocks run
  | .inline i :: nodes => flattenBlocks run ++ i :: inlinesAfter [] nodes
  | .block b :: nodes => inlinesAfter (run ++ [b]) nodes
  | .metadata m :: nodes => inlinesAfter (run ++ m.toBlocks) nodes

/-- Nodes as inlines: each maximal run of blocks is flattened. -/
def toInlines (nodes : List Node) : List Inline :=
  inlinesAfter [] nodes

def allOf (family : Family) (nodes : List Node) : Bool :=
  nodes.all fun node => node.family = family

def lift (target : Family) (nodes : List Node) : List Node :=
  match target with
  | .block => (toBlocks nodes).map .block
  | .inline => (toInlines nodes).map .inline
  | .metadata =>
    if allOf .metadata nodes then nodes
    else if allOf .inline nodes then [.metadata (.inlines (toInlines nodes))]
    else [.metadata (.blocks (toBlocks nodes))]

/-- Where a replacement can go. -/
inductive Resolution where
  /-- In the place of the node it replaces. -/
  | splice (nodes : List Node)
  /-- Nowhere in that place: a node around it has to give way. -/
  | defer (nodes : List Node)

/-- Reconciles a replacement with the family of the node it replaces. -/
def resolve (replaced : Family) (nodes : List Node) : Resolution :=
  if allOf replaced nodes then .splice nodes
  else match replaced with
    | .inline => .defer nodes
    | .block => .splice (lift .block nodes)
    | .metadata => .splice (lift .metadata nodes)

end Literate
