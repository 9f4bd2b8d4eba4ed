/-!
# Blank characters

A blank is a character with the property White_Space. Words are the maximal runs without blanks
(`words`), and `trim` takes the blanks off both ends. The grammar of attribute groups separates its
items by the blanks of ASCII only (`isAsciiBlank`), which leave out the vertical tab.
-/

namespace Literate.Text

/-- A character with the property White_Space. -/
def isBlank (c : Char) : Bool :=
  let n := c.toNat
  (0x09 ≤ n && n ≤ 0x0D) || n = 0x20 || n = 0x85 || n = 0xA0 || n = 0x1680 ||
    (0x2000 ≤ n && n ≤ 0x200A) || n = 0x2028 || n = 0x2029 || n = 0x202F || n = 0x205F || n = 0x3000

/-- A space, tab, line feed, form feed or carriage return. -/
def isAsciiBlank (c : Char) : Bool :=
  c = ' ' || c = '\t' || c = '\n' || c = '\x0C' || c = '\r'

/-- The text without the last characters that satisfy `p`. -/
def dropEndWhile (p : Char → Bool) (cs : List Char) : List Char :=
  (cs.reverse.dropWhile p).reverse

/-- The text without blanks at either end. -/
def trimBlanks (cs : List Char) : List Char :=
  dropEndWhile isBlank (cs.dropWhile isBlank)

def trim (s : String) : String :=
  String.ofList (trimBlanks s.toList)

def isBlankText (s : String) : Bool :=
  s.toList.all isBlank

/-- The maximal runs of characters that do not satisfy `p`, the first of which may be open:
`run` holds its characters so far, last one first. -/
def splitRuns (p : Char → Bool) (run : List Char) : List Char → List (List Char)
  | [] => if run.isEmpty then [] else [run.reverse]
  | c :: cs =>
    if p c then if run.isEmpty then splitRuns p [] cs else run.reverse :: splitRuns p [] cs
    else splitRuns p (c :: run) cs

/-- The maximal runs of characters other than blanks. -/
def words (cs : List Char) : List (List Char) :=
  splitRuns isBlank [] cs

end Literate.Text
