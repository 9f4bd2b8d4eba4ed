import Literate.Document.Attr

/-!
# Documents

A document is metadata, a map of named values, followed by a sequence of blocks. Blocks hold blocks or
inlines, inlines hold inlines, and metadata holds any of the three, so the types are layered:
`Inline`, then `Block`, then `Metadata`.

A map is a list of entries with distinct keys in increasing order.
-/

namespace Literate

/-- Inline nodes. These nest freely within one another. -/
inductive Inline where
  | text (text : String)
  | code (attr : Attr) (text : String)
  | emphasis (content : List Inline)
  | strong (content : List Inline)
  | strikethrough (content : List Inline)
  | link (dest title : String) (content : List Inline)
  | image (dest title : String) (alt : List Inline)
  | math (display : Bool) (text : String)
  /-- Generic inline container. -/
  | span (attr : Attr) (content : List Inline)
  /-- Raw HTML passed through untouched. -/
  | html (text : String)
  | softBreak
  | hardBreak
deriving Inhabited

/-- How the cells of a table column are set. -/
inductive Alignment where
  | none
  | left
  | center
  | right
deriving DecidableEq, Inhabited

/-- Block-level nodes. -/
inductive Block where
  /-- Inline content without the meaning of a paragraph: the text of a tight list item, or inlines
  that had to be put where a block is required. -/
  | plain (content : List Inline)
  | paragraph (content : List Inline)
  | heading (level : UInt8) (attr : Attr) (content : List Inline)
  | codeBlock (attr : Attr) (text : String)
  | blockQuote (content : List Block)
  | orderedList (start : UInt64) (items : List Block)
  | bulletList (items : List Block)
  /-- One entry of an ordered or bullet list. -/
  | listItem (content : List Block)
  | table (alignments : List Alignment) (head : Block) (rows : List Block)
  | tableRow (cells : List Block)
  | tableCell (content : List Inline)
  /-- Generic block container. -/
  | div (attr : Attr) (content : List Block)
  | html (text : String)
  | rule
deriving Inhabited

/-- Values of the front matter. Its strings are Markdown, so that they can carry code like any other
part of the document; numbers and dates are kept as their text in `str`. -/
inductive Metadata where
  | bool (value : Bool)
  | str (text : String)
  | inlines (content : List Inline)
  | blocks (content : List Block)
  | list (items : List Metadata)
  | map (entries : List (String × Metadata))

instance : Inhabited Metadata := ⟨.str ""⟩

/-- Metadata by name, and the top-level blocks. -/
structure Document where
  metadata : List (String × Metadata)
  blocks : List Block
deriving Inhabited

namespace Document

/-- A document of blocks without metadata. -/
def ofBlocks (blocks : List Block) : Document := ⟨[], blocks⟩

def isEmpty (d : Document) : Bool :=
  d.metadata.isEmpty && d.blocks.isEmpty

end Document

end Literate
