import Literate.Execution.Error
import Literate.Text.Lines
import Literate.Text.Utf8

/-!
# What an interpreter answers

An interactive interpreter prints a prompt when it is ready for a new statement, and a continuation
marker when it needs more of the current one. What it prints up to the next marker is a turn, and
`Reader.readTurn` reads one. It looks for a marker only where a read ends: an interpreter that has
printed one waits, so nothing comes after it in the same read.

The turns of a batch of lines, each after the line that it answers, are its transcript, and `shape`
makes of it the text that goes into the document.
-/

namespace Literate

/-- The two texts with which an interpreter says that it waits. -/
structure Markers where
  prompt : String
  continuation : String

/-- Which marker ended a turn. -/
inductive Marker where
  | prompt
  | continuation
deriving DecidableEq

structure Turn where
  text : String
  marker : Marker

/-- What one attempt to read gives: bytes, none at the end of the output. -/
inductive Reading where
  | bytes (bytes : List UInt8)
  /-- Nothing yet; reading is to be tried again. -/
  | interrupted
  | failed (reason : String)

namespace Markers

/-- The marker that bytes end with, if there is one. An empty text marks nothing. -/
def terminator? (markers : Markers) (bytes : List UInt8) : Option Marker :=
  let endsWith (marker : String) : Bool :=
    !marker.isEmpty && (Text.Utf8.encode marker.toList).isSuffixOf bytes
  if endsWith markers.prompt then some .prompt
  else if endsWith markers.continuation then some .continuation
  else none

/-- The turn that bytes are, if they end with a marker. -/
def turnOf? (markers : Markers) (bytes : List UInt8) : Option Turn :=
  (markers.terminator? bytes).map fun marker =>
    ⟨String.ofList (Text.Utf8.decodeLossy bytes), marker⟩

/-- The error that the output ended after bytes that are no turn. -/
def endedAfter (bytes : List UInt8) : ExecutionError :=
  .terminated (String.ofList (Text.Utf8.decodeLossy bytes))

/-- Reads on until the bytes of the turn, of which `seen` have come, end with a marker. Gives the turn
and the readings that are left; an output without further readings has ended. -/
def readFrom (markers : Markers) (seen : List UInt8) :
    List Reading → Except ExecutionError Turn × List Reading
  | [] =>
    match markers.turnOf? seen with
    | some turn => (.ok turn, [])
    | none => (.error (endedAfter seen), [])
  | reading :: readings =>
    match markers.turnOf? seen with
    | some turn => (.ok turn, reading :: readings)
    | none =>
      match reading with
      | .interrupted => readFrom markers seen readings
      | .failed reason => (.error (.io reason), readings)
      | .bytes [] => (.error (endedAfter seen), readings)
      | .bytes bytes => readFrom markers (seen ++ bytes) readings

def readTurn (markers : Markers) (readings : List Reading) :
    Except ExecutionError Turn × List Reading :=
  markers.readFrom [] readings

end Markers

/-- The most bytes that one attempt to read gives. -/
def Reading.limit : Nat := 1024

namespace Transcript

/-- A turn without one line break at its start. -/
def dropFirstBreak : List Char → List Char
  | '\r' :: '\n' :: cs => cs
  | '\n' :: cs => cs
  | cs => cs

/-- A line without the marker at its start, if it has one. -/
def unmarked? (markers : Markers) (line : List Char) : Option (List Char) :=
  if markers.prompt.toList.isPrefixOf line then some (line.drop markers.prompt.length)
  else if markers.continuation.toList.isPrefixOf line then
    some (line.drop markers.continuation.length)
  else none

/-- The lines of a transcript, without the last one, which holds the prompt. -/
def linesOf (transcript : List Char) : List (List Char) :=
  ((Text.splitFeeds transcript).map Text.dropReturn).dropLast

/-- What goes into the document of a transcript. With `echo` the lines that were sent stay, with their
markers if `repl` is set; without it every line with a marker is left out. -/
def shape (markers : Markers) (echo repl : Bool) (transcript : String) : String :=
  let lines := linesOf transcript.toList
  let shaped :=
    if !echo then lines.filter fun line => (unmarked? markers line).isNone
    else if repl then lines
    else lines.map fun line => (unmarked? markers line).getD line
  Text.joinLines (shaped.map String.ofList)

end Transcript

end Literate
