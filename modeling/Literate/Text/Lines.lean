/-!
# Lines

A text is cut at its line feeds in two ways. `splitFeeds` gives every piece, the empty last one of a
text that ends in a line feed included, so that joining the pieces gives the text back. `lines` gives
the lines a reader sees: no empty last piece, and no carriage return before a line feed.
-/

namespace Literate.Text

/-- The pieces between the occurrences of `sep`; there is always one more piece than separators. -/
def splitAt (sep : Char) : List Char → List (List Char)
  | [] => [[]]
  | c :: cs =>
    if c = sep then [] :: splitAt sep cs
    else match splitAt sep cs with
      | [] => [[c]]
      | piece :: pieces => (c :: piece) :: pieces

def splitFeeds (cs : List Char) : List (List Char) :=
  splitAt '\n' cs

/-- The text without one carriage return at its end. -/
def dropReturn (cs : List Char) : List Char :=
  if cs.getLast? = some '\r' then cs.dropLast else cs

/-- The lines of a text, given its pieces: every piece that a line feed ends loses one carriage
return, and an empty last piece is no line. -/
def linesOfPieces : List (List Char) → List (List Char)
  | [] => []
  | [last] => if last.isEmpty then [] else [last]
  | piece :: pieces => dropReturn piece :: linesOfPieces pieces

def charLines (cs : List Char) : List (List Char) :=
  linesOfPieces (splitFeeds cs)

/-- The lines of a text. -/
def lines (s : String) : List String :=
  (charLines s.toList).map String.ofList

/-- Lines put together with line feeds between them. -/
def joinLines (ls : List String) : String :=
  "\n".intercalate ls

end Literate.Text
