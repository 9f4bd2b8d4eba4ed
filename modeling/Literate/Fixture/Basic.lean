import Literate.Document.Render
import Literate.Execution.Session
import Literate.Text.Search
import Literate.Toml.Decode

/-!
# Fixtures

A fixture is a document with what is expected of it: a file that begins with settings in TOML between
lines of `---`, behind which the document stands (`Fixture.split`). `Fixture.check` executes the
document and says what is not as expected.
-/

namespace Literate

/-- What is expected of a document. -/
structure Fixture where
  description : Option String
  /-- A text that the rendered result holds. -/
  expectOutput : Option String
  /-- Whether that text is the whole result, apart from blanks around it. -/
  exact : Bool
  /-- A text that the message of the error holds with which the run fails. -/
  expectError : Option String
  /-- Whether the document cannot be parsed. -/
  expectParseError : Bool
  /-- Lines that run behind the session's own prelude. -/
  prelude : List String

/-- Why a file is no fixture. -/
inductive FixtureError where
  | noOpening
  | noClosing
  /-- The settings do not say what they should; the text that holds them and the error. -/
  | settings (text : String) (cause : Toml.ReadError)

def FixtureError.message : FixtureError → String
  | .noOpening => "missing opening --- frontmatter delimiter"
  | .noClosing => "missing closing --- frontmatter delimiter"
  | .settings text cause => "TOML parse error: " ++ cause.show text

namespace Fixture

/-- A document of which nothing is expected but that it runs. -/
def empty : Fixture := ⟨none, none, false, none, false, []⟩

def fieldNames : List String :=
  ["description", "expect_output", "exact", "expect_error", "expect_parse_error", "prelude"]

/-- Replaces the setting that a key names. -/
def set (fixture : Fixture) (key : Toml.Key) (item : Toml.Item) : Except Toml.ReadError Fixture :=
  match key.name with
  | "description" => return { fixture with description := some (← item.asString key.span) }
  | "expect_output" => return { fixture with expectOutput := some (← item.asString key.span) }
  | "exact" => return { fixture with exact := ← item.asBool key.span }
  | "expect_error" => return { fixture with expectError := some (← item.asString key.span) }
  | "expect_parse_error" => return { fixture with expectParseError := ← item.asBool key.span }
  | "prelude" => return { fixture with prelude := ← item.asStrings key.span }
  | _ => Toml.unknownField key fieldNames

/-- A text without one line end at its front. -/
def dropLineEnd : List Char → List Char
  | '\r' :: '\n' :: cs => cs
  | '\n' :: cs => cs
  | cs => cs

/-- The text of the settings and the document behind them. The settings end before the first line that
begins with three dashes; byte-order marks may stand before the first line. -/
def split (content : List Char) : Except FixtureError (List Char × List Char) :=
  let content := content.dropWhile (· = '\uFEFF')
  if "---".toList.isPrefixOf content then
    match Text.cutAt? "\n---".toList (dropLineEnd (content.drop 3)) with
    | some (settings, behind) =>
      .ok (Text.dropEndWhile (· = '\r') settings, dropLineEnd behind)
    | none => .error .noClosing
  else .error .noOpening

/-- Reads a fixture: what is expected, and the document. -/
def read (content : String) : Except FixtureError (Fixture × String) := do
  let (settings, document) ← split content.toList
  let text := String.ofList settings
  match Toml.decode empty set text with
  | .ok fixture => return (fixture, String.ofList document)
  | .error cause => throw (.settings text cause)

-- ---------------------------------------------------------------------------
-- Checking
-- ---------------------------------------------------------------------------

/-- Why a fixture fails. -/
inductive Failure where
  | unreadable (reason : String)
  | malformed (cause : FixtureError)
  | parsed
  | notParsed (errors : List ParseError)
  | succeeded (expected : String)
  | otherError (expected message : String)
  | failed (message : String)
  | output (exact : Bool) (expected actual : String)

def indented (text : String) : String :=
  Text.joinLines ((Text.lines text).map ("    " ++ ·))

/-- A parse error in one line, as far as its note is one. -/
def briefly (e : ParseError) : String :=
  match e.notes with
  | [] => e.message
  | note :: _ => e.message ++ ": " ++ note

def Failure.message : Failure → String
  | .unreadable reason => s!"cannot read file: {reason}"
  | .malformed cause => "frontmatter error: " ++ cause.message
  | .parsed => "expected parse error, but parsing succeeded"
  | .notParsed errors => "unexpected parse error: " ++ "; ".intercalate (errors.map briefly)
  | .succeeded expected => s!"expected error containing \"{expected}\", but execution succeeded"
  | .otherError expected message => s!"expected error containing \"{expected}\", got: {message}"
  | .failed message => s!"unexpected error: {message}"
  | .output exact expected actual =>
    let relation := if exact then "expected" else "expected to contain"
    s!"output mismatch\n  {relation}:\n" ++ indented expected ++ "\n  actual:\n" ++ indented actual

/-- Compares a result with what is expected of it, blanks around either apart. -/
def checkOutput (exact : Bool) (expected actual : String) : Option Failure :=
  let expected := Text.trim expected
  let actual := Text.trim actual
  let fits := if exact then actual = expected else Text.contains actual expected
  if fits then none else some (.output exact expected actual)

/-- Compares the outcome of a run with what is expected of it. -/
def checkOutcome (fixture : Fixture) : Except ExecutionError Document → Option Failure
  | .error e =>
    match fixture.expectError with
    | none => some (.failed e.message)
    | some expected =>
      if Text.contains e.message expected then none else some (.otherError expected e.message)
  | .ok d =>
    match fixture.expectError with
    | some expected => some (.succeeded expected)
    | none => fixture.expectOutput.bind fun expected => checkOutput fixture.exact expected d.render

/-- Runs a document as a fixture, and says why it fails if it does. -/
def check (programs : Programs) (base : Config) (fixture : Fixture) (document : String) :
    Option Failure :=
  match Document.parse document 0 with
  | .error errors => if fixture.expectParseError then none else some (.notParsed errors)
  | .ok d =>
    if fixture.expectParseError then some .parsed
    else
      let config := { base with prelude := base.prelude ++ fixture.prelude }
      fixture.checkOutcome (executeWith programs config d)

end Fixture

end Literate
