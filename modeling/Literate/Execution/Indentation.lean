import Literate.Text.Blank
import Literate.Text.Run

/-!
# Blank lines in indented code

An interpreter that reads line by line ends an indented suite at the first empty line. A blank line
inside a suite is therefore sent with the indentation of the line that comes next (`normalize`), and a
block that ends inside one gets an empty line to end it (`closeSuite`).
-/

namespace Literate.Indentation

def width : Nat := 4

/-- The level of a line: its blanks in front, by the `width`, rounded down. -/
def level (line : String) : Nat :=
  (line.toList.takeWhile Text.isBlank).length / width

/-- The level of the first line that is not blank, or none. -/
def nextLevel (lines : List String) : Nat :=
  ((lines.find? fun line => !Text.isBlankText line).map level).getD 0

/-- Lines whose blank ones are indented as the line that comes next. Blank lines that stand outside of
any suite, where the line before them is at level `current = 0`, are kept. -/
def normalizeFrom (current : Nat) : List String → List String
  | [] => []
  | line :: lines =>
    if Text.isBlankText line then
      (if current = 0 then line else Text.repeated (nextLevel lines * width) ' ') ::
        normalizeFrom current lines
    else line :: normalizeFrom (level line) lines

/-- Lines whose blank ones inside a suite are indented as the line that comes next. -/
def normalize (lines : List String) : List String :=
  normalizeFrom 0 lines

/-- Lines with an empty one behind them if the last that is not blank is indented. -/
def closeSuite (lines : List String) : List String :=
  if nextLevel lines.reverse > 0 then lines ++ [""] else lines

end Literate.Indentation
