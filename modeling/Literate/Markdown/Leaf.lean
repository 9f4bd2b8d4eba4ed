import Literate.Markdown.Container
import Literate.Markdown.Phrase

/-!
# Leaf blocks

The blocks that hold text and no other blocks. Each reader here is given the containers that the block
stands in, outermost first, and the text of the document from the block's first mark on; it answers
with the block and with the document from the first line behind it.

A paragraph goes on until a line `interrupts` it, and lines of it may leave its containers. Every
other block ends at the latest where a line does not go on in all of them.
-/

namespace Literate.Markdown

-- ---------------------------------------------------------------------------
-- What ends a paragraph
-- ---------------------------------------------------------------------------

/-- The columns of the table whose head stands at the front of a text, and what follows the row that
sets them; that row has as many columns as the head. -/
def opensTable? (containers : List Container) (cs : List Char) : Option (List Alignment × List Char) :=
  let below := cs.dropWhile fun c => !isLineEnd c
  match headColumns? cs with
  | none => none
  | some n =>
    if below.isEmpty then none
    else
      match (afterLineEnd? below).bind (enterAll? containers) with
      | none => none
      | some c =>
        match columns? c.rest with
        | some (columns, rest) => if columns.length = n then some (columns, rest) else none
        | none => none

/-- Whether a line ends the text above it, tables apart. `inside` says whether it goes on in all
containers of that text. -/
def interruptsText (inside inTable : Bool) (cs : List Char) : Bool :=
  atLineEnd cs || (afterRule? cs).isSome || (headingLevel? cs).isSome || (fence? cs).isSome ||
    itemInterrupts inside inTable cs ||
    match cs with
    | '>' :: _ => true
    | '<' :: rest => (Html.blockEnd? false rest).isSome
    | _ => false

/-- Whether a line ends the paragraph above it. -/
def interrupts (containers : List Container) (inside : Bool) (cs : List Char) : Bool :=
  interruptsText inside false cs ||
    (cs.head? = some '|' && (opensTable? containers cs).isSome)

/-- Whether a line ends the text above it, or underlines it. -/
def endsText (containers : List Container) (inside : Bool) (cs : List Char) : Bool :=
  interrupts containers inside cs || (inside && (underline? cs).isSome)

-- ---------------------------------------------------------------------------
-- Literal blocks
-- ---------------------------------------------------------------------------

/-- A line of a literal block, after the columns that are left of a tab; a carriage return before its
line feed is dropped. -/
def literalLine (pending : Nat) (line : List Char) : List Char :=
  List.replicate pending ' ' ++
    match line.reverse with
    | '\n' :: '\r' :: rest => ('\n' :: rest).reverse
    | _ => line

/-- The lines of indented code, the columns left of a tab before each, and what follows. The blank
lines at its end are not part of it; whether there are any is said last. -/
def readIndentedCode (containers : List Container) :
    Nat → Nat → List Char → List Char × List Char × Bool
  | 0, _, cs => ([], cs, false)
  | fuel + 1, pending, cs =>
    let (line, below) := splitLine cs
    let blank := isBlankLine cs
    let last := (if blank then [] else literalLine pending line, below, blank)
    match enterAll? containers below with
    | none => last
    | some c =>
      let (c, missing) := c.skip 4
      if (missing ≠ 0 && !atLineEnd c.rest) || c.rest.isEmpty then last
      else
        let (text, rest, endsBlank) := readIndentedCode containers fuel c.pending c.rest
        (if blank && text.isEmpty then [] else literalLine pending line ++ text, rest, endsBlank)

/-- The text of a fenced block up to the closing fence, and what follows. Each line loses as much
indentation as the opening fence has. -/
def readFencedCode (containers : List Container) (indent : Nat) (mark : Char) (size : Nat) :
    Nat → List Char → List Char × List Char
  | 0, cs => ([], cs)
  | fuel + 1, cs =>
    match enterAll? containers cs with
    | none => ([], cs)
    | some c =>
      let c := (c.skip indent).1
      let (inner, missing) := c.skip (4 - indent)
      match if missing ≠ 0 then afterClosingFence? mark size inner.rest else none with
      | some rest => ([], dropBlankLine rest)
      | none =>
        let (line, below) := splitLine c.rest
        let (text, rest) := readFencedCode containers indent mark size fuel below
        (literalLine c.pending line ++ text, rest)

/-- A piece of a line of front matter: its text, and the document from its first character on. -/
structure MetadataPiece where
  text : List Char
  source : List Char

/-- The byte of a source of so many bytes at which a piece begins, and its text. -/
def MetadataPiece.placed (size : Nat) (piece : MetadataPiece) : Nat × String :=
  (size - (String.ofList piece.source).utf8ByteSize, String.ofList piece.text)

/-- The pieces of a line of front matter, after the columns that are left of a tab. A carriage return
before the line feed is dropped, and what stands around it is two pieces. -/
def metadataPieces (pending : Nat) (line below : List Char) : List MetadataPiece :=
  let blanks := List.replicate pending ' '
  match line.reverse with
  | '\n' :: '\r' :: rest => [⟨blanks ++ rest.reverse, line ++ below⟩, ⟨['\n'], '\n' :: below⟩]
  | _ => [⟨blanks ++ line, line ++ below⟩]

/-- The pieces of front matter up to its end, and what follows. -/
def readMetadata (containers : List Container) : Nat → List Char → List MetadataPiece × List Char
  | 0, cs => ([], cs)
  | fuel + 1, cs =>
    match enterAll? containers cs with
    | none => ([], dropBlankLine cs)
    | some c =>
      match afterPluses? cs with
      | some rest => ([], dropBlankLine rest)
      | none =>
        let (line, below) := splitLine c.rest
        let (pieces, rest) := readMetadata containers fuel below
        (metadataPieces c.pending line below ++ pieces, rest)

/-- The text of a block of raw HTML up to the line that ends it, and what follows. -/
def readHtml (containers : List Container) (blockEnd : Html.BlockEnd) :
    Nat → Nat → List Char → List Char × List Char
  | 0, _, cs => ([], cs)
  | fuel + 1, pending, cs =>
    let (line, below) := splitLine cs
    let last := (literalLine pending line, below)
    match enterAll? containers below with
    | none => last
    | some c =>
      let ends := match blockEnd with
        | .text closer => Html.containsWord closer line
        | .blank => isBlankLine c.rest
      if ends || c.rest.isEmpty then last
      else
        let (text, rest) := readHtml containers blockEnd fuel c.pending c.rest
        (literalLine pending line ++ text, rest)

-- ---------------------------------------------------------------------------
-- Headings
-- ---------------------------------------------------------------------------

/-- The attributes that the words of a group give to a heading. A word of one byte is passed over. -/
def headingAttr (group : List Char) : Attr :=
  (Text.splitRuns Text.isAsciiBlank [] group).foldl addWord Attr.empty
where
  addWord (attr : Attr) (word : List Char) : Attr :=
    if (String.ofList word).utf8ByteSize ≤ 1 then attr
    else match word with
      | '#' :: name => { attr with id := String.ofList name }
      | '.' :: name => { attr with classes := attr.classes ++ [String.ofList name] }
      | _ =>
        let key := word.takeWhile (· ≠ '=')
        let value := (word.drop key.length).drop 1
        { attr with pairs := attr.pairs ++ [(String.ofList key, String.ofList value)] }

/-- The text of a heading before the group of attributes at its end, and those; a heading without
such a group is given back whole. -/
def splitHeadingAttr (cs : List Char) : List Char × Option Attr :=
  let body := Text.dropEndWhile (fun c => isLineEnd c || c = ' ' || c = '\t') cs
  match body.reverse with
  | '\x7d' :: back =>
    let isGroupChar (c : Char) : Bool :=
      !(c = '\x7b' || c = '\x7d' || c = '<' || c = '>' || c = '\\' || isLineEnd c)
    match back.dropWhile isGroupChar with
    | '\x7b' :: front => (front.reverse, some (headingAttr (back.takeWhile isGroupChar).reverse))
    | _ => (cs, none)
  | _ => (cs, none)

/-- How much of a heading's text stands before the number signs that close it. -/
def closingSigns (cs : List Char) : Nat :=
  let body := Text.dropEndWhile (fun c => isLineEnd c || c = ' ') cs
  let bare := Text.dropEndWhile (· = '#') body
  let text := Text.dropEndWhile (· = ' ') bare
  if bare.isEmpty then 0
  else if text.length < bare.length then text.length
  else body.length

/-- The tokens with the last one, if it is text, replaced by what stands there in `cs` before place
`limit`. -/
def cutLast (cs : List Char) (limit : Nat) (tokens : List Token) : List Token :=
  match tokens.getLast? with
  | some (.text _) =>
    let start := (rawOf tokens.dropLast).length
    tokens.dropLast ++ [.text ((cs.drop start).take (limit - start))]
  | _ => tokens

/-- The text of a heading on one line, from behind the number signs, and what follows. -/
def readHeading (cs : List Char) : List Token × Attr × List Char :=
  match afterLineEnd? cs with
  | some rest => ([], Attr.empty, rest)
  | none =>
    let (line, rest) := splitLine (cs.dropWhile isGap)
    let (text, attr) := splitHeadingAttr line
    let body := Text.dropEndWhile isGap (text.takeWhile fun c => !isLineEnd c)
    let tokens := tokensOf false (line.drop body.length) body
    (cutLast text (closingSigns text) tokens, attr.getD Attr.empty, rest)

/-- The lines of an underlined heading, and the attributes at the end of the last. -/
def splitLinesAttr : List Line → List Line × Option Attr
  | [] => ([], none)
  | [line] =>
    let (text, attr) := splitHeadingAttr (line.indent ++ line.body)
    match attr with
    | some attr => ([{ line with text, lineEnd := [] }], some attr)
    | none => ([line], none)
  | line :: lines => let (lines, attr) := splitLinesAttr lines; (line :: lines, attr)

-- ---------------------------------------------------------------------------
-- Paragraphs and tables
-- ---------------------------------------------------------------------------

/-- The lines of a paragraph, the level of the heading that an underline makes of it, if one does, and
what follows. The first line has `margin` in front. -/
def readLines (containers : List Container) :
    Nat → List Char → List Char → List Line × Option Nat × List Char
  | 0, _, cs => ([], none, cs)
  | fuel + 1, margin, cs =>
    let (line, below) := Line.read margin cs
    let (c, n) := enter (.ofLine below) containers
    let inside := n = containers.length
    let (inner, missing) := c.skip 4
    match if missing ≠ 0 && inside then underline? inner.rest else none with
    | some (level, rest) => ([line], some level, rest)
    | none =>
      if (missing ≠ 0 && interrupts containers inside inner.rest) || atLineEnd inner.skipAll.rest then
        ([line], none, below)
      else
        let (lines, level, rest) := readLines containers fuel c.margin c.rest
        (line :: lines, level, rest)

/-- The tokens of the cells of a row of `n` columns; cells that are missing are empty. -/
def rowTokens (n : Nat) (cs : List Char) : List (List Token) :=
  let row := (cells cs).map fun cell =>
    let body := Text.dropEndWhile isGap cell
    tokensOf true [] body
  (row ++ List.replicate (n - row.length) []).take n

def readRows (containers : List Container) (n : Nat) :
    Nat → List Char → List (List (List Token)) × List Char
  | 0, cs => ([], cs)
  | fuel + 1, cs =>
    match enterAll? containers cs with
    | none => ([], cs)
    | some c =>
      let row := c.skipAll.rest
      if interruptsText true true row then ([], cs)
      else
        let below := (afterLineEnd? (row.dropWhile fun c => !isLineEnd c)).getD []
        let (rows, rest) := readRows containers n fuel below
        (rowTokens n row :: rows, rest)

-- ---------------------------------------------------------------------------
-- Definitions
-- ---------------------------------------------------------------------------

/-- Where a definition goes on behind a line end, which must not end the text. -/
def continueLabel (containers : List Container) (cs : List Char) : Option (List Char) :=
  let (c, n) := enter (.ofLine cs) containers
  if endsText containers (n = containers.length) c.rest then none else some c.rest

/-- Where a definition goes on behind a line end, its indentation taken off. -/
def continueDefinition (containers : List Container) (cs : List Char) : Option (List Char) :=
  let (c, n) := enter (.ofLine cs) containers
  let (inner, missing) := c.skip 4
  if missing ≠ 0 && endsText containers (n = containers.length) inner.rest then none
  else some inner.skipAll.rest

/-- The gaps between the parts of a definition taken off, with at most one line end among them; and
whether there was one. -/
def skipDefinitionSpace? (containers : List Container) (cs : List Char) : Option (List Char × Bool) :=
  let rest := cs.dropWhile isGap
  match afterLineEnd? rest with
  | none => some (rest, false)
  | some below =>
    match continueDefinition containers below with
    | none => none
    | some rest =>
      let rest := rest.dropWhile isGap
      if atLineEnd rest then none else some (rest, true)

/-- The title of a definition after its opening character, and what follows. -/
def readDefinitionTitle? (containers : List Container) (close : Char) :
    Nat → List Char → List Char → Option (List Char × List Char)
  | 0, _, _ => none
  | _ + 1, _, [] => none
  | fuel + 1, read, c :: cs =>
    if c = '(' && close = ')' then none
    else if c = close then some (read.reverse, cs)
    else if isLineEnd c then
      match (afterLineEnd? (c :: cs)).bind (continueDefinition containers) with
      | some rest =>
        if isBlankLine rest then none
        else readDefinitionTitle? containers close fuel ('\n' :: read) rest
      | none => none
    else if c = '\\' then
      match cs with
      | d :: rest =>
        if Text.isAsciiPunctuation d then
          readDefinitionTitle? containers close fuel (d :: c :: read) rest
        else readDefinitionTitle? containers close fuel (c :: read) cs
      | [] => none
    else readDefinitionTitle? containers close fuel (c :: read) cs

/-- The title and the end of a definition whose destination stands before `cs`, and what follows. -/
def readDefinitionEnd? (containers : List Container) (cs : List Char) :
    Option (List Char × List Char) :=
  match skipDefinitionSpace? containers cs with
  | none => some ([], cs)
  | some (rest, newLine) =>
    if rest.length = cs.length && !newLine then none
    else
      let title := match rest with
        | [] => none
        | c :: body =>
          (Target.titleCloser? c).bind fun close =>
            readDefinitionTitle? containers close (body.length + 1) [] body
      match title with
      | some (title, rest) =>
        if isBlankLine rest then some (Target.unescaped false title, rest)
        else if newLine then some ([], cs) else none
      | none => if newLine then some ([], cs) else none

/-- The definition of a label: the key of the label, where it leads, and what follows. -/
def readDefinition? (containers : List Container) (cs : List Char) :
    Option (List Char × Target × List Char) :=
  match Target.readLabel? (continueLabel containers) cs with
  | some (key, ':' :: rest) =>
    match skipDefinitionSpace? containers rest with
    | none => none
    | some (rest, _) =>
      match Target.readDestination? rest with
      | none => none
      | some (destination, behind) =>
        if behind.length = rest.length then none
        else
          match readDefinitionEnd? containers behind with
          | some (title, rest) =>
            some (key,
              ⟨String.ofList (Target.unescaped false destination), String.ofList title⟩,
              dropBlankLine rest)
          | none => none
  | _ => none

end Literate.Markdown
