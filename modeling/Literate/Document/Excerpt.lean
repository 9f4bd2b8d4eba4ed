import Literate.Document.Source
import Literate.Text.Lines
import Literate.Text.Utf8
import Literate.Text.Width

/-!
# Errors shown in their source

A parse error is shown with the lines of the source that it is about: its message, the place in the
file, the lines with their numbers, and marks under what is wrong. A range within one line is underlined
with carets; one over several lines is joined at the left, from a caret below its first character to a
caret below the character behind its last. Of a long range only the lines at its ends are shown.
-/

namespace Literate.Excerpt

/-- A line of a source: the byte at which it begins, and its text without the line feed. -/
structure SourceLine where
  start : Nat
  text : List Char

/-- Lines from the byte at which the first one begins. -/
def numbered (start : Nat) : List (List Char) → List SourceLine
  | [] => []
  | text :: texts => ⟨start, text⟩ :: numbered (start + Text.Utf8.byteSize text + 1) texts

def sourceLines (source : String) : List SourceLine :=
  numbered 0 (Text.splitFeeds source.toList)

/-- The number, counted from zero, of the line that a byte stands on: the last line that does not begin
behind it. -/
def lineIndex (lines : List SourceLine) (byte : Nat) : Nat :=
  (lines.takeWhile fun line => line.start ≤ byte).length - 1

/-- A line as it is shown, without what ends it. -/
def shownText (text : List Char) : List Char :=
  Text.dropEndWhile (fun c => c = '\n' || c = '\r' || c = '\x00') text

/-- A character of a line: the byte at which it begins, and the columns that it fills. -/
structure Cell where
  byte : Nat
  char : Char
  width : Nat

/-- The columns up to the next tab stop. -/
def tabWidth (column : Nat) : Nat := 4 - column % 4

/-- The cells of a text that begins at a byte and a column of its line. -/
def cellsFrom (byte column : Nat) : List Char → List Cell
  | [] => []
  | c :: cs =>
    let width := if c = '\t' then tabWidth column else Text.charWidth c
    ⟨byte, c, width⟩ :: cellsFrom (byte + c.utf8Size) (column + width) cs

def cells (text : List Char) : List Cell :=
  cellsFrom 0 0 text

/-- A line with blanks in place of its tabs. -/
def expanded (text : List Char) : List Char :=
  (cells text).flatMap fun cell =>
    if cell.char = '\t' then List.replicate cell.width ' ' else [cell.char]

/-- Carets under the bytes from `start` to `stop` of a line, which may lie just behind its end. -/
def carets (text : List Char) (start stop : Nat) : List Char :=
  let ends : Cell := ⟨Text.Utf8.byteSize text, '\x00', 1⟩
  (cells text ++ [ends]).flatMap fun cell =>
    if max start cell.byte < min stop (cell.byte + cell.char.utf8Size) then
      List.replicate cell.width '^'
    else if cell.byte < stop then List.replicate cell.width ' '
    else []

/-- A horizontal stroke below the characters of a line that begin before a byte. -/
def stroke (text : List Char) (byte : Nat) : List Char :=
  ((cells text).takeWhile fun cell => cell.byte < byte).flatMap fun cell =>
    List.replicate cell.width '─'

/-- Where the text of a line begins, in bytes. -/
def indentOf (text : List Char) : Nat :=
  Text.Utf8.byteSize (text.takeWhile Text.isBlank)

/-- The place of an error, and the width of the margin with the numbers of the lines. -/
structure Frame where
  lines : List SourceLine
  margin : Nat

namespace Frame

def blank (frame : Frame) : List Char :=
  List.replicate (frame.margin + 1) ' '

def numberOf (frame : Frame) (index : Nat) : List Char :=
  let digits := (toString (index + 1)).toList
  List.replicate (frame.margin - digits.length) ' ' ++ digits ++ [' ']

def border (frame : Frame) (behind : String) : List Char :=
  frame.blank ++ '│' :: behind.toList

def line (frame : Frame) (index : Nat) : SourceLine :=
  frame.lines[index]?.getD ⟨0, []⟩

/-- A line of the source under its number; `joint` stands between border and text. -/
def row (frame : Frame) (index : Nat) (joint : String) : List Char :=
  frame.numberOf index ++ '│' :: joint.toList ++ ' ' :: expanded (shownText (frame.line index).text)

/-- The rows for a range within one line. -/
def withinLine (frame : Frame) (index start stop : Nat) : List (List Char) :=
  let first := start - (frame.line index).start
  let last := max (stop - (frame.line index).start) (first + 1)
  let marks := carets (shownText (frame.line index).text) first last
  [frame.border "", frame.row index "", frame.border " " ++ marks, frame.border ""]

/-- The rows of the lines between the first and the last one of a range: all of them if they are few,
otherwise the first three and the last, with a break between. -/
def between (frame : Frame) (first last : Nat) : List (List Char) :=
  let row (index : Nat) := frame.row index " │"
  let count := last - first - 1
  if count ≤ 5 then (List.range count).map fun k => row (first + 1 + k)
  else (List.range 3).map (fun k => row (first + 1 + k)) ++
    [frame.blank ++ "· │".toList, row (last - 1)]

/-- The rows for a range over several lines. A range that begins in the blanks in front of its first
line needs no caret there. -/
def acrossLines (frame : Frame) (first last start stop : Nat) : List (List Char) :=
  let firstText := shownText (frame.line first).text
  let begins := start - (frame.line first).start
  let ends := stop - (frame.line last).start
  let top :=
    if begins ≤ indentOf firstText then [frame.row first " ╭"]
    else [frame.row first "  ",
      frame.border " ╭" ++ stroke firstText (begins + 1) ++ ['^']]
  let bottom := [frame.row last " │",
    frame.border " ╰" ++ stroke (shownText (frame.line last).text) ends ++ ['^']]
  [frame.border "  "] ++ top ++ frame.between first last ++ bottom ++ [frame.border "  "]

end Frame

/-- A note behind its sign; its further lines are indented. -/
def noteRows (frame : Frame) (note : String) : List (List Char) :=
  match Text.lines note with
  | [] => []
  | first :: others =>
    (frame.blank ++ "= ".toList ++ first.toList) ::
      others.map fun line => frame.blank ++ "  ".toList ++ line.toList

/-- The column of a byte, counted from one in characters. -/
def columnOf (line : SourceLine) (byte : Nat) : Nat :=
  ((cells (line.text ++ ['\n'])).takeWhile fun cell =>
    line.start + cell.byte + cell.char.utf8Size ≤ byte).length + 1

/-- An error in a source of this name. -/
def «show» (name source : String) (e : ParseError) : String :=
  let lines := sourceLines source
  let first := lineIndex lines e.span.start
  let last := lineIndex lines e.span.stop
  let frame : Frame := ⟨lines, (toString (max first last + 1)).length⟩
  let column := columnOf (frame.line first) e.span.start
  let place := frame.blank ++ s!"┌─ {name}:{first + 1}:{column}".toList
  let body :=
    if first = last then frame.withinLine first e.span.start e.span.stop
    else frame.acrossLines first last e.span.start e.span.stop
  let body := if e.notes.isEmpty then body.dropLast else body
  let rows := ("error: " ++ e.message).toList :: place :: body ++ e.notes.flatMap (noteRows frame)
  Text.joinLines (rows.map String.ofList) ++ "\n\n"

end Literate.Excerpt
