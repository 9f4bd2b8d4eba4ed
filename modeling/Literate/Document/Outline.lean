import Literate.Document.Basic
import Literate.Text.Quoted

/-!
# The tree of a document as text

To show how a document was read, its tree is written out with one node, field or item to a line,
indented by its depth. An `Outline` is such a tree of named parts; `Outline.lines` lays it out, and
`Document.outline` turns a document into one.
-/

namespace Literate

/-- A tree of named parts. -/
inductive Outline where
  | atom (text : String)
  /-- A name and named fields in braces. -/
  | record (name : String) (fields : List (String × Outline))
  /-- A name, possibly empty, and values in parentheses. -/
  | tuple (name : String) (values : List Outline)
  | list (items : List Outline)
  | map (entries : List (String × Outline))

namespace Outline

def indented (line : String) : String :=
  "    " ++ line

/-- The lines of a part with a comma after its last line. -/
def withComma : List String → List String
  | [] => []
  | [line] => [line ++ ","]
  | line :: lines => line :: withComma lines

/-- The lines of a part with a label before its first line. -/
def withLabel (label : String) : List String → List String
  | [] => []
  | line :: lines => (label ++ ": " ++ line) :: lines

/-- Parts between an opening and a closing bracket; without parts both stand on one line. -/
def bracketed («open» close : String) (parts : List (List String)) : List String :=
  if parts.isEmpty then [«open» ++ close]
  else «open» :: (parts.flatMap fun part => (withComma part).map indented) ++ [close]

mutual

def lines : Outline → List String
  | .atom text => [text]
  | .record name fields => bracketed (name ++ " \x7b") "\x7d" (labelledLines fields)
  | .tuple name values => bracketed (name ++ "(") ")" (eachLines values)
  | .list items => bracketed "[" "]" (eachLines items)
  | .map entries => bracketed "\x7b" "\x7d" (labelledLines entries)

def eachLines : List Outline → List (List String)
  | [] => []
  | part :: parts => part.lines :: eachLines parts

def labelledLines : List (String × Outline) → List (List String)
  | [] => []
  | (label, part) :: parts => withLabel label part.lines :: labelledLines parts

end

def render (o : Outline) : String :=
  "\n".intercalate o.lines

def quoted (s : String) : Outline :=
  .atom (Text.Quoted.quote s)

def ofBool (b : Bool) : Outline :=
  .atom (if b then "true" else "false")

end Outline

open Outline (quoted ofBool)

protected def Attr.outline (attr : Attr) : Outline :=
  .record "Attr" [("id", quoted attr.id), ("classes", .list (attr.classes.map quoted)),
    ("pairs", .list (attr.pairs.map fun (key, value) => .tuple "" [quoted key, quoted value]))]

mutual

protected def Inline.outline : Inline → Outline
  | .text text => .tuple "Text" [quoted text]
  | .code attr text => .record "Code" [("attr", attr.outline), ("text", quoted text)]
  | .emphasis content => .tuple "Emphasis" [.list (outlineInlines content)]
  | .strong content => .tuple "Strong" [.list (outlineInlines content)]
  | .strikethrough content => .tuple "Strikethrough" [.list (outlineInlines content)]
  | .link dest title content =>
    .record "Link" [("dest", quoted dest), ("title", quoted title),
      ("content", .list (outlineInlines content))]
  | .image dest title alt =>
    .record "Image" [("dest", quoted dest), ("title", quoted title),
      ("alt", .list (outlineInlines alt))]
  | .math display text => .record "Math" [("display", ofBool display), ("text", quoted text)]
  | .span attr content =>
    .record "Span" [("attr", attr.outline), ("content", .list (outlineInlines content))]
  | .html text => .tuple "Html" [quoted text]
  | .softBreak => .atom "SoftBreak"
  | .hardBreak => .atom "HardBreak"

def outlineInlines : List Inline → List Outline
  | [] => []
  | i :: is => i.outline :: outlineInlines is

end

protected def Alignment.outline : Alignment → Outline
  | .none => .atom "None"
  | .left => .atom "Left"
  | .center => .atom "Center"
  | .right => .atom "Right"

mutual

protected def Block.outline : Block → Outline
  | .plain content => .tuple "Plain" [.list (outlineInlines content)]
  | .paragraph content => .tuple "Paragraph" [.list (outlineInlines content)]
  | .heading level attr content =>
    .record "Heading" [("level", .atom (toString level.toNat)), ("attr", attr.outline),
      ("content", .list (outlineInlines content))]
  | .codeBlock attr text => .record "CodeBlock" [("attr", attr.outline), ("text", quoted text)]
  | .blockQuote content => .tuple "BlockQuote" [.list (outlineBlocks content)]
  | .orderedList start items =>
    .record "OrderedList" [("start", .atom (toString start.toNat)),
      ("items", .list (outlineBlocks items))]
  | .bulletList items => .record "BulletList" [("items", .list (outlineBlocks items))]
  | .listItem content => .tuple "ListItem" [.list (outlineBlocks content)]
  | .table alignments head rows =>
    .record "Table" [("alignments", .list (alignments.map Alignment.outline)),
      ("head", head.outline), ("rows", .list (outlineBlocks rows))]
  | .tableRow cells => .tuple "TableRow" [.list (outlineBlocks cells)]
  | .tableCell content => .tuple "TableCell" [.list (outlineInlines content)]
  | .div attr content =>
    .record "Div" [("attr", attr.outline), ("content", .list (outlineBlocks content))]
  | .html text => .tuple "Html" [quoted text]
  | .rule => .atom "HorizontalRule"

def outlineBlocks : List Block → List Outline
  | [] => []
  | block :: blocks => block.outline :: outlineBlocks blocks

end

mutual

protected def Metadata.outline : Metadata → Outline
  | .bool value => .tuple "Bool" [ofBool value]
  | .str text => .tuple "Str" [quoted text]
  | .inlines content => .tuple "Inlines" [.list (outlineInlines content)]
  | .blocks content => .tuple "Blocks" [.list (outlineBlocks content)]
  | .list items => .tuple "List" [.list (outlineMetadata items)]
  | .map entries => .tuple "Map" [.map (outlineEntries entries)]

def outlineMetadata : List Metadata → List Outline
  | [] => []
  | item :: items => item.outline :: outlineMetadata items

def outlineEntries : List (String × Metadata) → List (String × Outline)
  | [] => []
  | (key, value) :: entries => (Text.Quoted.quote key, value.outline) :: outlineEntries entries

end

protected def Document.outline (d : Document) : Outline :=
  .record "Document" [("meta", .map (outlineEntries d.metadata)),
    ("blocks", .list (outlineBlocks d.blocks))]

end Literate
