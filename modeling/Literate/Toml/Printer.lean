import Literate.Text.Run
import Literate.Toml.Value

/-!
# Writing TOML

`printDocument` writes a table as a document. Of each table the plain values come first, one to a line,
then its sub-tables and arrays of tables, depth first. A table has a `[header]` if it has plain values
of its own or nothing at all; an array that holds only tables, and at least one, is written as a
`[[header]]` for each of them, any other array in brackets. A blank line stands before each header
except on the first line.

A string is written in the first of these styles that can hold it: basic, literal, multi-line basic and
multi-line literal without any escape, then one of the basic styles with escapes (`printString`).
-/

namespace Literate.Toml

-- ---------------------------------------------------------------------------
-- Strings and keys
-- ---------------------------------------------------------------------------

/-- A control character that no style but the basic ones can write. The tab and the line feed are
counted elsewhere. -/
def isControl (c : Char) : Bool :=
  (c.toNat < 0x20 && c ≠ '\t' && c ≠ '\n') || c.toNat = 0x7F

def controlDigits (c : Char) : List Char :=
  let digits := (Nat.toDigits 16 c.toNat).map Char.toUpper
  List.replicate (4 - digits.length) '0' ++ digits

def escapeBasic (c : Char) : List Char :=
  if c = '"' then ['\\', '"']
  else if c = '\\' then ['\\', '\\']
  else if c = '\n' then ['\\', 'n']
  else if c = '\t' then ['\\', 't']
  else if c = '\r' then ['\\', 'r']
  else if c = '\x08' then ['\\', 'b']
  else if c = '\x0C' then ['\\', 'f']
  else if isControl c then ['\\', 'u'] ++ controlDigits c
  else [c]

/-- A text between multi-line basic quotes: line feeds stay, and of a run of quotes each third one is
escaped. `run` counts the quotes just written without an escape. -/
def escapeMultiline (run : Nat) : List Char → List Char
  | [] => []
  | '\n' :: cs => '\n' :: escapeMultiline 0 cs
  | '"' :: cs =>
    if run = 2 then '\\' :: '"' :: escapeMultiline 0 cs else '"' :: escapeMultiline (run + 1) cs
  | c :: cs => escapeBasic c ++ escapeMultiline 0 cs

def basic (cs : List Char) : List Char :=
  '"' :: cs.flatMap escapeBasic ++ ['"']

def literal (cs : List Char) : List Char :=
  '\'' :: cs ++ ['\'']

/-- Three quotes, a line feed if the text holds one, the text, three quotes. -/
def multiline (quote : Char) (cs body : List Char) : List Char :=
  let quotes := List.replicate 3 quote
  quotes ++ (if cs.contains '\n' then ['\n'] else []) ++ body ++ quotes

/-- A string in the first style that can hold it. -/
def printString (s : String) : String :=
  let cs := s.toList
  let control := cs.any isControl
  let backslash := cs.contains '\\'
  let feed := cs.contains '\n'
  let quotes := Text.longestRun '"' cs
  let apostrophes := Text.longestRun '\'' cs
  String.ofList <|
    if !control && !backslash && !feed && quotes = 0 then basic cs
    else if !control && !feed && apostrophes = 0 then literal cs
    else if !control && !backslash && quotes ≤ 2 then multiline '"' cs (escapeMultiline 0 cs)
    else if !control && apostrophes ≤ 2 then multiline '\'' cs cs
    else if feed then multiline '"' cs (escapeMultiline 0 cs)
    else basic cs

def isBareKeyChar (c : Char) : Bool :=
  c.isAlphanum || c = '-' || c = '_'

/-- A key: bare if it can be, quoted otherwise. -/
def printKey (key : String) : String :=
  let cs := key.toList
  let special := cs.any fun c => isControl c || c = '\n'
  if !cs.isEmpty && cs.all isBareKeyChar then key
  else String.ofList <|
    if !special && !cs.contains '\\' && !cs.contains '"' then basic cs
    else if !special && !cs.contains '\'' then literal cs
    else basic cs

-- ---------------------------------------------------------------------------
-- Values on one line
-- ---------------------------------------------------------------------------

/-- The text of a floating-point number, with a decimal point if it is whole. -/
def printFloat (x : Float) : String :=
  if x.isNaN then "nan"
  else
    let text := Decimal.ofFloat x
    if x.isInf || text.contains '.' then text else text ++ ".0"

def printDatetime (d : Datetime) : String :=
  "\x7b \"$__toml_private_datetime\" = " ++ printString d.show ++ " \x7d"

mutual

def Value.print : Value → String
  | .string s => printString s
  | .integer n => toString n
  | .float x => printFloat x
  | .boolean b => if b then "true" else "false"
  | .datetime d => printDatetime d
  | .array items => "[" ++ ", ".intercalate (printItems items) ++ "]"
  | .table [] => "\x7b\x7d"
  | .table entries => "\x7b " ++ ", ".intercalate (printEntries entries) ++ " \x7d"

def printItems : List Value → List String
  | [] => []
  | item :: items => item.print :: printItems items

def printEntries : List (String × Value) → List String
  | [] => []
  | (key, value) :: entries => (printKey key ++ " = " ++ value.print) :: printEntries entries

end

-- ---------------------------------------------------------------------------
-- Documents
-- ---------------------------------------------------------------------------

def Value.isTable : Value → Bool
  | .table _ => true
  | _ => false

def Value.hasHeader : Value → Bool
  | .table _ => true
  | .array items => !items.isEmpty && items.all Value.isTable
  | _ => false

/-- A part of a document: a header, except for the first part, and lines under it. -/
structure Section where
  header : Option String
  body : List String

def plainLines (entries : List (String × Value)) : List String :=
  printEntries (entries.filter fun (_, value) => !value.hasHeader)

def printPath (path : List String) : String :=
  ".".intercalate (path.map printKey)

mutual

/-- The sections of the value at a path; a plain value has none. -/
def Value.sections (path : List String) : Value → List Section
  | .table entries =>
    let body := plainLines entries
    (if body.isEmpty && !entries.isEmpty then [] else [⟨some s!"[{printPath path}]", body⟩]) ++
      entrySections path entries
  | .array items => if (Value.array items).hasHeader then itemSections path items else []
  | _ => []

/-- The sections of the tables in an array. -/
def itemSections (path : List String) : List Value → List Section
  | [] => []
  | .table entries :: items =>
    ⟨some s!"[[{printPath path}]]", plainLines entries⟩ :: entrySections path entries ++
      itemSections path items
  | _ :: items => itemSections path items

/-- The sections of the entries of the table at a path. -/
def entrySections (path : List String) : List (String × Value) → List Section
  | [] => []
  | (key, value) :: entries => value.sections (path ++ [key]) ++ entrySections path entries

end

/-- The lines of sections; `first` says that nothing is written yet. -/
def sectionLines (first : Bool) : List Section → List String
  | [] => []
  | ⟨none, body⟩ :: rest => body ++ sectionLines (first && body.isEmpty) rest
  | ⟨some header, body⟩ :: rest =>
    (if first then [] else [""]) ++ header :: body ++ sectionLines false rest

def documentLines (entries : List (String × Value)) : List String :=
  sectionLines true (⟨none, plainLines entries⟩ :: entrySections [] entries)

def printDocument (entries : List (String × Value)) : String :=
  String.join ((documentLines entries).map (· ++ "\n"))

end Literate.Toml
