import Literate.Markdown.Event
import Literate.Markdown.Leaf

/-!
# The parts of a source

The blocks of a source are found line by line, before any of its text is read: a link may be defined
behind the place where it stands. `partsOf` answers with the tree of blocks, in which text is still a
list of tokens, and with all definitions.

The state of the scan is a stack of open containers (`Builder`). A line closes those that it does not
go on in, opens others, and the block behind their marks reads as many lines as belong to it.
-/

namespace Literate.Markdown

/-- A block whose text is not read yet. -/
inductive Part where
  | paragraph (tokens : List Token)
  | heading (level : Nat) (attr : Attr) (tokens : List Token)
  | code (info : Option String) (text : String)
  | html (text : String)
  | rule
  /-- Front matter in pieces, with the byte at which each of them begins. -/
  | metadata (pieces : List (Nat × String))
  | table (columns : List Alignment) (head : List (List Token)) (rows : List (List (List Token)))
  | quote (parts : List Part)
  | item (parts : List Part)
  | list (start : Option UInt64) (tight : Bool) (parts : List Part)
deriving Inhabited

structure OpenContainer where
  container : Container
  parts : List Part

/-- The part that a container becomes when it ends. -/
def OpenContainer.toPart (o : OpenContainer) : Part :=
  match o.container with
  | .quote => .quote o.parts.reverse
  | .item _ => .item o.parts.reverse
  | .list tight mark number =>
    .list (if mark = '.' || mark = ')' then some (.ofNat number) else none) tight o.parts.reverse

/-- What has been read of a source. -/
structure Builder where
  /-- The open containers, innermost first. -/
  stack : List OpenContainer
  /-- What stands in no open container, last one first. -/
  parts : List Part
  /-- Whether the line before was blank, in a way that makes a list loose. -/
  afterBlank : Bool
  /-- Whether the innermost container is an item whose marker had nothing behind it. -/
  bareItem : Bool
  definitions : Definitions

namespace Builder

def empty : Builder := ⟨[], [], false, false, []⟩

/-- The open containers, outermost first. -/
def containers (b : Builder) : List Container :=
  (b.stack.map (·.container)).reverse

def add (part : Part) (b : Builder) : Builder :=
  match b.stack with
  | [] => { b with parts := part :: b.parts }
  | o :: os => { b with stack := { o with parts := part :: o.parts } :: os }

def openContainer (container : Container) (b : Builder) : Builder :=
  { b with stack := ⟨container, []⟩ :: b.stack }

def close (b : Builder) : Builder :=
  match b.stack with
  | [] => b
  | o :: os =>
    let bareItem := match o.container with
      | .list true .. => false
      | _ => b.bareItem
    { b with stack := os, bareItem }.add o.toPart

def closeMany : Nat → Builder → Builder
  | 0, b => b
  | n + 1, b => closeMany n b.close

/-- Makes a list loose; other containers stay as they are. -/
def loosen (o : OpenContainer) : OpenContainer :=
  match o.container with
  | .list _ mark number => { o with container := .list false mark number }
  | _ => o

/-- Ends an item that has begun with a blank line and goes on with another. -/
def finishBareItem (b : Builder) : Builder :=
  let b := match b.stack with
    | ⟨.item _, _⟩ :: _ => if b.bareItem && b.afterBlank then b.close else b
    | _ => b
  { b with bareItem := false }

/-- Ends the list whose last item has ended before what comes now, which belongs to no item of it. If
it comes after a blank line, the list around it is loose. -/
def finishList (b : Builder) : Builder :=
  let b := b.finishBareItem
  let b := match b.stack with
    | ⟨.list .., _⟩ :: _ => b.close
    | _ => b
  if b.afterBlank then
    { b with
      stack := match b.stack with
        | o :: outer :: os => o :: loosen outer :: os
        | os => os
      afterBlank := false }
  else b

/-- Goes on with the list that an item with this marker belongs to, or begins it. -/
def continueList (marker : Marker) (b : Builder) : Builder :=
  let b := b.finishBareItem
  let begin_ (b : Builder) : Builder :=
    { b.openContainer (.list true marker.mark marker.number) with afterBlank := false }
  match b.stack with
  | [] => begin_ b
  | o :: os =>
    match o.container with
    | .list _ mark _ =>
      if mark = marker.mark then
        if b.afterBlank then { b with stack := loosen o :: os, afterBlank := false } else b
      else begin_ b.finishList
    | _ => begin_ b.finishList

/-- The builder after a blank line. One that stands behind a bare marker lets nothing be indented
into the item but what comes next. -/
def blankLine (b : Builder) : Builder :=
  match b.stack with
  | ⟨.quote, _⟩ :: _ => b
  | ⟨.item indent, parts⟩ :: os =>
    { b with
      stack := ⟨.item (if b.bareItem then 0 else indent), parts⟩ :: os
      afterBlank := true }
  | _ => { b with afterBlank := true }

/-- Opens the containers whose marks stand at a cursor. If a bare marker ends the line, the text
below is the answer, otherwise the cursor behind the marks. -/
def openContainers : Nat → Cursor → Builder → Builder × (List Char ⊕ Cursor)
  | 0, c, b => (b, .inr c)
  | fuel + 1, c, b =>
    let (inner, missing) := c.skip 4
    if missing = 0 then (b, .inr c)
    else
      match inner.overMarker? (4 - missing) with
      | some (marker, indent, inner) =>
        let b := (b.continueList marker).openContainer (.item indent)
        match afterBlankLine? inner.rest with
        | some below => ({ b with bareItem := true }, .inl below)
        | none => openContainers fuel inner b
      | none =>
        match inner.overQuote? with
        | some inner => openContainers fuel inner (b.finishList.openContainer .quote)
        | none => (b, .inr c)

-- ---------------------------------------------------------------------------
-- Blocks
-- ---------------------------------------------------------------------------

def readText (cs : List Char) (b : Builder) : Builder × List Char :=
  let containers := b.containers
  match opensTable? containers cs with
  | some (columns, below) =>
    let (rows, rest) := readRows containers columns.length (below.length + 1) below
    (b.add (.table columns (rowTokens columns.length cs) rows), rest)
  | none =>
    match readLines containers (cs.length + 1) [] cs with
    | (lines, some level, rest) =>
      let (lines, attr) := splitLinesAttr lines
      (b.add (.heading level (attr.getD Attr.empty) (tokensOfLines .none lines)), rest)
    | (lines, none, rest) => (b.add (.paragraph (tokensOfLines .none lines)), rest)

/-- Reads the block of raw HTML that begins here, if one does. -/
def readHtmlBlock? (pending : Nat) (cs : List Char) (b : Builder) : Option (Builder × List Char) :=
  match cs with
  | '<' :: body =>
    (Html.blockEnd? true body).map fun blockEnd =>
      let (text, rest) := readHtml b.containers blockEnd (cs.length + 1) pending cs
      (b.add (.html (String.ofList text)), rest)
  | _ => none

/-- Reads the block that begins at a cursor and is not indented as code. `pending` columns of a tab
and `indent` columns stand before it. -/
def readUnindented (pending indent : Nat) (cs : List Char) (b : Builder) : Builder × List Char :=
  match b.readHtmlBlock? (max pending indent) cs with
  | some result => result
  | none =>
    match afterRule? cs with
    | some rest => (b.add .rule, rest)
    | none =>
      match headingLevel? cs with
      | some level =>
        let (tokens, attr, rest) := readHeading (cs.drop level)
        (b.add (.heading level attr tokens), rest)
      | none =>
        match fence? cs with
        | some (mark, size) =>
          let (line, below) := splitLine ((cs.drop size).dropWhile isGap)
          let info := Target.unescaped false (Text.dropEndWhile isSpace line)
          let (text, rest) :=
            readFencedCode b.containers indent mark size (below.length + 1) below
          (b.add (.code (some (String.ofList info)) (String.ofList text)), rest)
        | none =>
          match readDefinition? b.containers cs with
          | some (key, target, rest) =>
            ({ b with definitions := b.definitions ++ [(key, target)] }, rest)
          | none => b.readText cs

/-- Reads the blocks that the line at the front of `cs` begins or goes on with: the builder after them
and the lines below. `size` is the number of bytes of the whole source; it is given if front matter is
read. -/
def readBlock (size : Option Nat) (cs : List Char) (b : Builder) : Builder × List Char :=
  let (c, n) := enter (.ofLine cs) b.containers
  let b := b.closeMany (b.stack.length - n)
  match openContainers (cs.length + 1) c b with
  | (b, .inl below) => (b, below)
  | (b, .inr c) =>
    match afterBlankLine? c.rest with
    | some below => (b.blankLine, below)
    | none =>
      let b := b.finishList
      let (inner, missing) := c.skip 4
      let rest := inner.rest
      if missing = 0 then
        let (text, below, endsBlank) :=
          readIndentedCode b.containers (rest.length + 1) inner.pending rest
        ({ b with afterBlank := endsBlank }.add (.code none (String.ofList text)), below)
      else
        match if missing = 4 && opensMetadata rest then size else none with
        | some size =>
          let body := (splitLine rest).2
          let (pieces, below) := readMetadata b.containers (body.length + 1) body
          (b.add (.metadata (pieces.map (MetadataPiece.placed size))), below)
        | none => b.readUnindented c.pending (4 - missing) rest

/-- Reads all blocks of a source. Every step takes a line, so `fuel` may be the number of characters. -/
def readBlocks (size : Option Nat) : Nat → List Char → Builder → Builder
  | 0, _, b => b
  | _ + 1, [], b => b
  | fuel + 1, cs, b =>
    let (b, below) := b.readBlock size cs
    readBlocks size fuel below b

end Builder

def partsOf (frontMatter : Bool) (cs : List Char) : List Part × Definitions :=
  let size := if frontMatter then some (String.ofList cs).utf8ByteSize else none
  let b := Builder.empty.readBlocks size (cs.length + 1) cs
  ((b.closeMany b.stack.length).parts.reverse, b.definitions)

-- ---------------------------------------------------------------------------
-- Events
-- ---------------------------------------------------------------------------

def eventsOfCells (definitions : Definitions) (cells : List (List Token)) : List Event :=
  cells.flatMap fun tokens => Tag.tableCell.around (eventsOfInlines (phrase true definitions tokens))

mutual
/-- The events of a part. A paragraph that is `bare` comes without beginning and end. -/
def Part.events (definitions : Definitions) (bare : Bool) : Part → List Event
  | .paragraph tokens =>
    let events := eventsOfInlines (phrase false definitions tokens)
    if bare then events else Tag.paragraph.around events
  | .heading level attr tokens =>
    (Tag.heading (.ofNat level) attr).around (eventsOfInlines (phrase false definitions tokens))
  | .code info text => (Tag.codeBlock info).around (if text.isEmpty then [] else [.text text])
  | .html text => Tag.htmlBlock.around [.html text]
  | .rule => [.rule]
  | .metadata pieces => Tag.metadata.around (pieces.map fun (start, text) => .line start text)
  | .table columns head rows =>
    (Tag.table columns).around
      (Tag.tableHead.around (eventsOfCells definitions head) ++
        rows.flatMap fun row => Tag.tableRow.around (eventsOfCells definitions row))
  | .quote parts => Tag.blockQuote.around (eventsOfParts definitions false parts)
  | .item parts => Tag.item.around (eventsOfParts definitions bare parts)
  | .list start tight parts => (Tag.list start).around (eventsOfParts definitions tight parts)
def eventsOfParts (definitions : Definitions) (bare : Bool) : List Part → List Event
  | [] => []
  | part :: parts => part.events definitions bare ++ eventsOfParts definitions bare parts
end

/-- The events of a source. Front matter, a block between lines of `+++`, is read if `frontMatter`
says so. -/
def eventsOf (frontMatter : Bool) (source : String) : List Event :=
  let (parts, definitions) := partsOf frontMatter source.toList
  eventsOfParts definitions false parts

end Literate.Markdown
