import Literate.Document.Node
import Literate.Text.Lines
import Literate.Text.Blank
import Literate.Toml.Printer

/-!
# Rendering

`Document.render` writes a document as Markdown, its metadata as front matter between `+++` lines.

* Blocks are set apart by blank lines, and a block that renders to nothing is left out
  (`renderBlocks`).
* A code span and a fenced block get more backticks around them than any run of backticks inside
  (`longestTicks`).
* A quote puts `> ` in front of every line of its content; a list item puts its marker in front of the
  first line and indents the others by the marker's width, leaving empty lines empty.
* Text is written as it stands.
-/

namespace Literate

open Text (joinLines repeated)

-- ---------------------------------------------------------------------------
-- Inlines
-- ---------------------------------------------------------------------------

/-- The length of the longest run of backticks in a text. -/
def longestTicks (s : String) : Nat :=
  Text.longestRun '`' s.toList

def Attr.showNonempty (attr : Attr) : String :=
  if attr.isEmpty then "" else attr.show

/-- A code span. A text that begins or ends with a backtick is set apart from the fence by spaces. -/
def renderCode (attr : Attr) (text : String) : String :=
  let fence := repeated (longestTicks text + 1) '`'
  let cs := text.toList
  let pad := if cs.head? = some '`' || cs.getLast? = some '`' then " " else ""
  fence ++ pad ++ text ++ pad ++ fence ++ attr.showNonempty

/-- What follows the bracket of a link or an image. -/
def renderTarget (dest title : String) : String :=
  "(" ++ dest ++ (if title.isEmpty then "" else " \"" ++ title ++ "\"") ++ ")"

mutual

protected def Inline.render : Inline → String
  | .text text | .html text => text
  | .code attr text => renderCode attr text
  | .emphasis content => "*" ++ renderInlines content ++ "*"
  | .strong content => "**" ++ renderInlines content ++ "**"
  | .strikethrough content => "~~" ++ renderInlines content ++ "~~"
  | .link dest title content => "[" ++ renderInlines content ++ "]" ++ renderTarget dest title
  | .image dest title alt => "![" ++ renderInlines alt ++ "]" ++ renderTarget dest title
  | .math display text =>
    let fence := if display then "$$" else "$"
    fence ++ text ++ fence
  -- a bracketed run without a group would read back as text
  | .span attr content => "[" ++ renderInlines content ++ "]" ++ attr.show
  | .softBreak => "\n"
  | .hardBreak => "\\\n"

def renderInlines : List Inline → String
  | [] => ""
  | i :: is => i.render ++ renderInlines is

end

-- ---------------------------------------------------------------------------
-- Lines
-- ---------------------------------------------------------------------------

def quoteLine (line : String) : String :=
  if line.isEmpty then ">" else "> " ++ line

def quoteLines (text : String) : String :=
  joinLines ((Text.lines text).map quoteLine)

/-- A text as the content of a list item: the marker, then the other lines indented by its width. A
text without lines leaves the bare marker. -/
def renderItem (marker text : String) : String :=
  match Text.lines text with
  | [] => String.ofList (Text.dropEndWhile Text.isBlank marker.toList)
  | line :: rest =>
    joinLines ((marker ++ line) :: rest.map fun line =>
      if line.isEmpty then "" else repeated marker.length ' ' ++ line)

def orderedMarker (number : UInt64) : String :=
  toString number.toNat ++ ". "

/-- The entries of an ordered list, the first of them with `number`. -/
def renderOrdered (number : UInt64) : List String → List String
  | [] => []
  | text :: texts => renderItem (orderedMarker number) text :: renderOrdered (number + 1) texts

/-- The texts of blocks put together: blank lines between them, empty ones left out. -/
def joinBlocks (texts : List String) : String :=
  "\n\n".intercalate (texts.filter fun text => !text.isEmpty)

-- ---------------------------------------------------------------------------
-- Blocks
-- ---------------------------------------------------------------------------

/-- A fenced code block. The fence itself ends the last line of the text. -/
def renderCodeBlock (attr : Attr) (text : String) : String :=
  let fence := repeated (max (longestTicks text + 1) 3) '`'
  let cs := text.toList
  let body := if cs.getLast? = some '\n' then String.ofList cs.dropLast else text
  fence ++ attr.showNonempty ++ "\n" ++ body ++ "\n" ++ fence

def Alignment.dashes : Alignment → String
  | .none => "---"
  | .left => ":--"
  | .center => ":-:"
  | .right => "--:"

def renderRow (cells : List String) : String :=
  "| " ++ " | ".intercalate cells ++ " |"

def Block.isRow : Block → Bool
  | .tableRow _ => true
  | _ => false

/-- The text of a block that stands in the place of a row: a row as it is, anything else as the only
cell of one. -/
def asRow (block : Block) (text : String) : String :=
  if block.isRow then text else renderRow [text]

mutual

protected def Block.render : Block → String
  | .plain content | .paragraph content | .tableCell content => renderInlines content
  | .heading level attr content =>
    repeated level.toNat '#' ++ " " ++ renderInlines content ++
      if attr.isEmpty then "" else " " ++ attr.show
  | .codeBlock attr text => renderCodeBlock attr text
  | .blockQuote content => quoteLines (joinBlocks (renderEach content))
  | .orderedList start items => joinLines (renderOrdered start (renderEach items))
  | .bulletList items => joinLines ((renderEach items).map (renderItem "- "))
  | .listItem content => joinBlocks (renderEach content)
  | .table alignments head rows =>
    let rule := "|" ++ "|".intercalate (alignments.map Alignment.dashes) ++ "|"
    joinLines (asRow head head.render :: rule :: List.zipWith asRow rows (renderEach rows))
  | .tableRow cells => renderRow (renderEach cells)
  | .div attr content =>
    "::: " ++ attr.show ++ "\n" ++ joinBlocks (renderEach content) ++ "\n:::"
  | .html text => String.ofList (Text.dropEndWhile (· = '\n') text.toList)
  | .rule => "---"

def renderEach : List Block → List String
  | [] => []
  | block :: blocks => block.render :: renderEach blocks

end

def renderBlocks (blocks : List Block) : String :=
  joinBlocks (renderEach blocks)

-- ---------------------------------------------------------------------------
-- Documents
-- ---------------------------------------------------------------------------

mutual

/-- A metadata value as it is written in front matter. -/
def Metadata.toToml : Metadata → Toml.Value
  | .bool value => .boolean value
  | .str text => .string text
  | .inlines content => .string (renderInlines content)
  | .blocks content => .string (renderBlocks content)
  | .list items => .array (listToToml items)
  | .map entries => .table (mapToToml entries)

def listToToml : List Metadata → List Toml.Value
  | [] => []
  | item :: items => item.toToml :: listToToml items

def mapToToml : List (String × Metadata) → List (String × Toml.Value)
  | [] => []
  | (key, value) :: entries => (key, value.toToml) :: mapToToml entries

end

/-- The front matter of a document, with the blank line after it. -/
def renderMetadata (metadata : List (String × Metadata)) : String :=
  if metadata.isEmpty then ""
  else "+++\n" ++ Toml.printDocument (mapToToml metadata) ++ "+++\n\n"

def Document.render (d : Document) : String :=
  let body := renderBlocks d.blocks
  renderMetadata d.metadata ++ if body.isEmpty then "" else body ++ "\n"

/-- The text of a block or an inline. A metadata value has none of its own. -/
def Node.render? : Node → Option String
  | .block b => some b.render
  | .inline i => some i.render
  | .metadata _ => none

end Literate
