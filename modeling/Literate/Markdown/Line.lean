import Literate.Document.Basic
import Literate.Text.Blank

/-!
# What a line begins

Markdown decides from the front of a line which block it opens, continues or ends. Every scanner here
takes the text from some place on to the end of the document and says what it found; those named
`after…?` answer with the text behind it.

Two notions of line end meet: `afterLineEnd?` knows the line feed, the carriage return, both together
and the end of the text, while the literal blocks (code, front matter, raw HTML) are cut at line feeds
only (`splitLine`).
-/

namespace Literate.Markdown

/-- A blank inside a line: space, tab, vertical tab, form feed. -/
def isGap (c : Char) : Bool :=
  c = ' ' || c = '\t' || c = '\x0B' || c = '\x0C'

/-- A gap, or a character of a line end. -/
def isSpace (c : Char) : Bool :=
  isGap c || c = '\n' || c = '\r'

def isLineEnd (c : Char) : Bool :=
  c = '\n' || c = '\r'

/-- What follows the line end at the front of a text; the end of the text ends a line too. -/
def afterLineEnd? : List Char → Option (List Char)
  | [] => some []
  | '\n' :: cs => some cs
  | '\r' :: '\n' :: cs => some cs
  | '\r' :: cs => some cs
  | _ => none

def atLineEnd (cs : List Char) : Bool :=
  (afterLineEnd? cs).isSome

/-- What follows a blank line at the front of a text. -/
def afterBlankLine? (cs : List Char) : Option (List Char) :=
  afterLineEnd? (cs.dropWhile isGap)

def isBlankLine (cs : List Char) : Bool :=
  (afterBlankLine? cs).isSome

/-- The text with a blank line at its front taken off. -/
def dropBlankLine (cs : List Char) : List Char :=
  (afterBlankLine? cs).getD cs

/-- The text up to its first line feed, which is included, and the rest. -/
def splitLine : List Char → List Char × List Char
  | [] => ([], [])
  | '\n' :: cs => (['\n'], cs)
  | c :: cs => let (line, rest) := splitLine cs; (c :: line, rest)

def runLength (c : Char) (cs : List Char) : Nat :=
  (cs.takeWhile (· = c)).length

-- ---------------------------------------------------------------------------
-- Rules, headings and fences
-- ---------------------------------------------------------------------------

/-- A rule: three or more of one of `*`, `-` and `_`, with spaces and tabs between them. -/
def afterRule? : List Char → Option (List Char)
  | [] => none
  | mark :: cs =>
    if mark = '*' || mark = '-' || mark = '_' then
      let line := (mark :: cs).takeWhile fun c => c = mark || c = ' ' || c = '\t'
      if 3 ≤ line.count mark then afterLineEnd? ((mark :: cs).drop line.length) else none
    else none

/-- The level of a heading that opens with number signs. -/
def headingLevel? (cs : List Char) : Option Nat :=
  let level := runLength '#' cs
  if 1 ≤ level && level ≤ 6 && (cs.drop level).head?.all isSpace then some level else none

/-- A line of `=` or `-` that makes the paragraph above it a heading of level 1 or 2. -/
def underline? : List Char → Option (Nat × List Char)
  | [] => none
  | mark :: cs =>
    if mark = '=' || mark = '-' then
      (afterBlankLine? (cs.dropWhile (· = mark))).map fun rest => (if mark = '=' then 1 else 2, rest)
    else none

/-- The opening fence of a code block: its mark and how often it is written. No backtick may follow a
fence of backticks on its line. -/
def fence? : List Char → Option (Char × Nat)
  | [] => none
  | mark :: cs =>
    if mark = '\x60' || mark = '~' then
      let size := runLength mark (mark :: cs)
      let info := (splitLine ((mark :: cs).drop size)).1
      if 3 ≤ size && !(mark = '\x60' && info.contains '\x60') then some (mark, size) else none
    else none

/-- A closing fence, long enough and followed by nothing but spaces. The end of the text closes every
fence. -/
def afterClosingFence? (mark : Char) (size : Nat) (cs : List Char) : Option (List Char) :=
  if cs.isEmpty then some []
  else if runLength mark cs < size then none
  else
    let rest := (cs.dropWhile (· = mark)).dropWhile (· = ' ')
    if atLineEnd rest then some rest else none

/-- The line that closes front matter, `+++` with nothing but spaces after it; what is left begins
with its line end. -/
def afterPluses? (cs : List Char) : Option (List Char) :=
  if runLength '+' cs = 3 then
    let rest := (cs.drop 3).dropWhile (· = ' ')
    if atLineEnd rest then some rest else none
  else none

/-- Whether one of the lines after this one closes front matter. -/
def closesBelow : Nat → List Char → Bool
  | 0, _ => false
  | fuel + 1, cs =>
    let rest := (splitLine cs).2
    (afterPluses? rest).isSome || (!rest.isEmpty && closesBelow fuel rest)

/-- Whether front matter opens here: a line of exactly three `+`, then a line that is neither blank
nor the end, and an end further down. -/
def opensMetadata (cs : List Char) : Bool :=
  let (line, below) := splitLine cs
  runLength '+' cs = 3 && (line.drop 3).all Text.isAsciiBlank &&
    !isBlankLine below && (afterPluses? below).isNone && closesBelow below.length below

-- ---------------------------------------------------------------------------
-- Lists
-- ---------------------------------------------------------------------------

def decimalValue (cs : List Char) : Nat :=
  cs.foldl (fun n c => 10 * n + (c.toNat - '0'.toNat)) 0

/-- The marker of a list item: a bullet, or the delimiter behind a number of at most nine digits. -/
structure Marker where
  mark : Char
  /-- The number, zero for a bullet. -/
  number : Nat
  /-- How many characters the marker takes. -/
  width : Nat

namespace Marker

def isBullet (m : Marker) : Bool :=
  m.mark = '-' || m.mark = '+' || m.mark = '*'

/-- Reads a marker, whatever follows it. -/
def read? (cs : List Char) : Option (Marker × List Char) :=
  match cs with
  | [] => none
  | c :: rest =>
    if c = '-' || c = '+' || c = '*' then some (⟨c, 0, 1⟩, rest)
    else
      let digits := cs.takeWhile Char.isDigit
      if digits.isEmpty || 9 < digits.length then none
      else match cs.drop digits.length with
        | d :: rest =>
          if d = '.' || d = ')' then some (⟨d, decimalValue digits, digits.length + 1⟩, rest) else none
        | [] => none

end Marker

/-- Whether two blank lines stand here, the end of the text counting as blank. -/
def twoBlankLines (cs : List Char) : Bool :=
  match afterBlankLine? cs with
  | some rest => isBlankLine rest
  | none => false

/-- Whether a list item that opens here ends the paragraph above. Outside of the containers of the
paragraph, and in a table, every item does; inside them an empty item, or a number other than one,
does not. -/
def itemInterrupts (inside inTable : Bool) (cs : List Char) : Bool :=
  match Marker.read? cs with
  | none => false
  | some (marker, rest) =>
    (rest.head? = some ' ' || rest.head? = some '\t' || atLineEnd rest) &&
      (!inside || inTable || ((marker.isBullet || marker.number = 1) && !twoBlankLines rest))

-- ---------------------------------------------------------------------------
-- Tables
-- ---------------------------------------------------------------------------

/-- The state of a scan over the row that sets the columns of a table. -/
structure ColumnScan where
  /-- The finished columns, last one first. -/
  columns : List Alignment
  column : Alignment
  /-- Whether the column has neither colon nor hyphen yet. -/
  fresh : Bool
  hyphen : Bool
  anyPipe : Bool
  anyHyphen : Bool

/-- The alignment of a column after one more colon. -/
def withColon (fresh : Bool) : Alignment → Alignment
  | .none => if fresh then .left else .right
  | .left => if fresh then .left else .center
  | column => column

/-- Scans the row character by character; it holds spaces, colons, hyphens and bars only, and every
column that a bar closes has a hyphen. -/
def scanColumns (s : ColumnScan) : List Char → Option (List Alignment × List Char)
  | [] => finish s []
  | c :: cs =>
    if isLineEnd c then finish s ((afterLineEnd? (c :: cs)).getD [])
    else if c = ' ' then scanColumns s cs
    else if c = ':' then
      scanColumns { s with column := withColon s.fresh s.column, fresh := false } cs
    else if c = '-' then
      scanColumns { s with fresh := false, hyphen := true, anyHyphen := true } cs
    else if c = '|' then
      if s.hyphen then
        scanColumns
          { s with columns := s.column :: s.columns, column := .none, fresh := true, hyphen := false,
                   anyPipe := true } cs
      else none
    else none
where
  finish (s : ColumnScan) (rest : List Char) : Option (List Alignment × List Char) :=
    let columns := if s.fresh then s.columns else s.column :: s.columns
    if s.anyPipe && s.anyHyphen then some (columns.reverse, rest) else none

def columns? (cs : List Char) : Option (List Alignment × List Char) :=
  let indent := (cs.takeWhile (· = ' ')).length
  let body := cs.drop indent
  if 3 < indent || body.isEmpty || body.head? = some '\t' then none
  else
    let start : ColumnScan := ⟨[], .none, true, false, false, false⟩
    match body with
    | '|' :: row => scanColumns { start with anyPipe := true } row
    | row => scanColumns start row

/-- The pieces of a row between the bars that no backslash escapes. -/
def splitBars (escaped : Bool) : List Char → List (List Char)
  | [] => [[]]
  | c :: cs =>
    if c = '|' && !escaped then [] :: splitBars false cs
    else match splitBars (c = '\\') cs with
      | piece :: pieces => (c :: piece) :: pieces
      | [] => [[c]]

/-- How many columns the line at the front of a text has as the head of a table, if it has a bar. -/
def headColumns? (cs : List Char) : Option Nat :=
  let pieces := splitBars false (cs.takeWhile fun c => !isLineEnd c)
  if pieces.length ≤ 1 then none
  else
    let bars := pieces.length - 1
    let bars := if (pieces.head?.getD []).all isGap then bars - 1 else bars
    some (if (pieces.getLast?.getD []).all isGap then bars else bars + 1)

/-- The cells of a row, with the gaps before each taken off. A last piece that is blank is no cell. -/
def cellsOfPieces : List (List Char) → List (List Char)
  | [] => []
  | [last] => if last.all isGap then [] else [last.dropWhile isGap]
  | piece :: pieces => piece.dropWhile isGap :: cellsOfPieces pieces

/-- The cells of the row at the front of a text. A bar in the first column opens the first cell. -/
def cells (cs : List Char) : List (List Char) :=
  match splitBars false (cs.takeWhile fun c => !isLineEnd c) with
  | [] :: piece :: pieces => cellsOfPieces (piece :: pieces)
  | pieces => cellsOfPieces pieces

end Literate.Markdown
