import Literate.Text.Quoted
import Literate.Text.Utf8
import Literate.Toml.Printer

/-!
# Errors of TOML documents

A text may not be a TOML document (`Problem`), and a document may not say what is asked of it
(`Mismatch`). Either is placed by a range of bytes, and `ReadError.show` prints it under the line that
it is about.
-/

namespace Literate.Toml

/-- A range of bytes, from the first to the one behind the last. -/
structure Span where
  start : Nat
  stop : Nat
deriving DecidableEq, Inhabited

/-- What a text was taken for. -/
inductive Construct where
  | key
  | string
  | basicString
  | multilineBasicString
  | literalString
  | multilineLiteralString
  | escapeSequence
  | shortCode
  | longCode
  | integer
  | hexadecimal
  | octal
  | binary
  | float
  | datetime
  | time
  | offset
  | array
  | inlineTable
  | tableHeader
deriving DecidableEq

def Construct.name : Construct → String
  | key => "key"
  | string => "string"
  | basicString => "basic string"
  | multilineBasicString => "multiline basic string"
  | literalString => "literal string"
  | multilineLiteralString => "multiline literal string"
  | escapeSequence => "escape sequence"
  | shortCode => "unicode 4-digit hex code"
  | longCode => "unicode 8-digit hex code"
  | integer => "integer"
  | hexadecimal => "hexadecimal integer"
  | octal => "octal integer"
  | binary => "binary integer"
  | float => "floating-point number"
  | datetime => "date-time"
  | time => "time"
  | offset => "time offset"
  | array => "array"
  | inlineTable => "inline table"
  | tableHeader => "table header"

/-- What would have been right. -/
inductive Expectation where
  | text (text : String)
  | newline
  | digit
  | leadingDigit
deriving DecidableEq

def Expectation.name : Expectation → String
  | text t => "`" ++ t ++ "`"
  | newline => "newline"
  | digit => "digit"
  | leadingDigit => "leading digit"

/-- Why a text of the right form is not right. -/
inductive Cause where
  /-- The key is there already, in the table with this path if it is known. -/
  | duplicateKey (key : String) (table : Option (List String))
  /-- A dotted key leads through something that is no table. -/
  | notTable (path : List String) (kind : String)
  | outOfRange
  | tooDeep
  | tooLarge
  | tooSmall
deriving DecidableEq

def Cause.message : Cause → String
  | duplicateKey key none => s!"duplicate key `{key}`"
  | duplicateKey key (some []) => s!"duplicate key `{key}` in document root"
  | duplicateKey key (some path) =>
    "duplicate key `" ++ key ++ "` in table `" ++ ".".intercalate path ++ "`"
  | notTable path kind =>
    "dotted key `" ++ ".".intercalate path ++ "` attempted to extend non-table type (" ++ kind ++ ")"
  | outOfRange => "value is out of range"
  | tooDeep => "recursion limit exceeded"
  | tooLarge => "number too large to fit in target type"
  | tooSmall => "number too small to fit in target type"

structure Problem where
  construct : Option Construct
  expected : List Expectation
  cause : Option Cause
deriving DecidableEq

def Problem.none : Problem := ⟨.none, [], .none⟩

def Problem.message (p : Problem) : String :=
  "\n".intercalate
    ((p.construct.map fun c => "invalid " ++ c.name).toList ++
      (if p.expected.isEmpty then []
        else ["expected " ++ ", ".intercalate (p.expected.map Expectation.name)]) ++
      (p.cause.map Cause.message).toList)

/-- A type that a value is asked to have. -/
inductive Expected where
  | string
  | boolean
  | sequence
  | map

def Expected.name : Expected → String
  | string => "a string"
  | boolean => "a boolean"
  | sequence => "a sequence"
  | map => "a map"

inductive Found where
  | string (s : String)
  | integer (n : Int)
  | float (x : Float)
  | boolean (b : Bool)
  | sequence
  | map

def Found.name : Found → String
  | string s => "string " ++ Text.Quoted.quote s
  | integer n => s!"integer `{n}`"
  | float x =>
    let text := Decimal.ofFloat x
    let text := if x.isFinite && !text.contains '.' then text ++ ".0" else text
    s!"floating point `{text}`"
  | boolean b => s!"boolean `{b}`"
  | sequence => "sequence"
  | map => "map"

/-- Why a document does not say what is asked of it. -/
inductive Mismatch where
  | wrongType (found : Found) (expected : Expected)
  | unknownField (name : String) (fields : List String)

def Mismatch.message : Mismatch → String
  | wrongType found expected => s!"invalid type: {found.name}, expected {expected.name}"
  | unknownField name fields =>
    s!"unknown field `{name}`, expected one of " ++
      ", ".intercalate (fields.map fun field => s!"`{field}`")

inductive Fault where
  | malformed (problem : Problem)
  | mismatch (mismatch : Mismatch)

structure ReadError where
  fault : Fault
  span : Span

namespace ReadError

def message (e : ReadError) : String :=
  match e.fault with
  | .malformed problem => problem.message
  | .mismatch mismatch => mismatch.message

/-- The line that a byte stands on, counted from zero, the line's text, and the column of the byte,
counted from zero in characters. A character of several bytes makes its column count in bytes. A place
behind the last byte stands one column behind that. -/
def place (cs : List Char) (start : Nat) : Nat × List Char × Nat :=
  let rec go (line : List Char) (index : Nat) (bytes : Nat) : List Char → Nat × List Char × Nat
    | [] => (index, line.reverse, line.length)
    | c :: rest =>
      let size := c.utf8Size
      if start < bytes + size || (rest.isEmpty && c = '\n') then
        let column := if 1 < size then Text.Utf8.byteSize line else line.length
        let text := line.reverse ++ (c :: rest).takeWhile (· ≠ '\n')
        (index, text, if start < bytes + size then column else column + 1)
      else if c = '\n' then go [] (index + 1) (bytes + size) rest
      else go (c :: line) index (bytes + size) rest
  go [] 0 0 cs

/-- The error under the line that it is about, with its place marked. -/
protected def «show» (source : String) (e : ReadError) : String :=
  let (index, text, column) := place source.toList e.span.start
  let number := toString (index + 1)
  let gutter := String.ofList (List.replicate (number.length + 1) ' ')
  let size := min (e.span.stop - e.span.start) (Text.Utf8.byteSize text - column)
  s!"TOML parse error at line {number}, column {column + 1}\n" ++
    gutter ++ "|\n" ++
    number ++ " | " ++ String.ofList text ++ "\n" ++
    gutter ++ "|" ++ String.ofList (List.replicate (column + 1) ' ' ++ List.replicate (max 1 size) '^') ++
    "\n" ++ e.message ++ "\n"

end ReadError

end Literate.Toml
