import Literate.Shell.Command
import Literate.Shell.Pattern
import Literate.Text.Utf8

/-!
# The state of a running script

What a script knows while it runs: its variables, functions and arguments, the input that has come and
the output that it gave. `Shell` is a step of it, which may end in something else than the next step
(`Flow`). Among these is waiting: a script that reads more than its input holds goes on only when there
is more.
-/

namespace Literate.Shell

abbrev Bytes := List UInt8

def bytesOf (cs : List Char) : Bytes := Text.Utf8.encode cs

def charsOf (bytes : Bytes) : List Char := Text.Utf8.decodeLossy bytes

structure State where
  settings : List (List Char × Bytes)
  functions : List (List Char × Command)
  name : Bytes
  args : List Bytes
  input : Bytes
  /-- Whether nothing comes after the input. -/
  ended : Bool
  /-- What was put out, the last part first. -/
  output : List Bytes
  /-- Whether the two output streams lead to the output. -/
  shownOut : Bool
  shownErr : Bool
  status : Nat

/-- Where a script goes on if not with the next step. -/
inductive Flow where
  | exited
  /-- For input that has not come, or for ever. -/
  | waiting
  /-- Behind the loop that this many loops stand in between. -/
  | leave (loops : Nat)
  /-- With the next turn of the loop that this many loops stand in between. -/
  | again (loops : Nat)
  | returned

/-- A step of a script. -/
abbrev Step (α : Type) := ExceptT Flow (StateM State) α

namespace State

def outputBytes (s : State) : Bytes := s.output.reverse.flatten

/-- The value of a variable or parameter, if it is set. -/
def value? (s : State) (name : List Char) : Option Bytes :=
  match name with
  | ['#'] => some (bytesOf (toString s.args.length).toList)
  | ['?'] => some (bytesOf (toString s.status).toList)
  | ['$'] => some (bytesOf ['1'])
  | ['!'] | ['-'] => some []
  | ['0'] => some s.name
  | [c] => if c.isDigit then s.args[c.toNat - '1'.toNat]? else s.settings.lookup name
  | _ => s.settings.lookup name

def setVariable (s : State) (name : List Char) (value : Bytes) : State :=
  { s with settings := (name, value) :: s.settings.filter (·.1 ≠ name) }

def unsetVariable (s : State) (name : List Char) : State :=
  { s with settings := s.settings.filter (·.1 ≠ name) }

def separators (s : State) : Bytes :=
  (s.settings.lookup "IFS".toList).getD [32, 9, 10]

end State

def setStatus (status : Nat) : Step Unit :=
  modify fun s => { s with status }

def emit (toErr : Bool) (bytes : Bytes) : Step Unit :=
  modify fun s =>
    if if toErr then s.shownErr else s.shownOut then { s with output := bytes :: s.output } else s

/-- Runs a step and gives what it put out instead of putting it out. -/
def capture (step : Step Unit) : Step Bytes := do
  let s ← get
  set { s with output := [], shownOut := true }
  let result ← tryCatch (do step; return none) fun flow => return some flow
  let inner ← get
  set { inner with output := s.output, shownOut := s.shownOut }
  match result with
  | none | some .exited => return inner.outputBytes
  | some flow => throw flow

/-- Runs a step whose settings are lost afterwards, and which can end only itself. -/
def isolate (step : Step Unit) : Step Unit := do
  let s ← get
  let result ← tryCatch (do step; return none) fun flow => return some flow
  modify fun inner =>
    { inner with settings := s.settings, functions := s.functions, name := s.name, args := s.args }
  match result with
  | some .waiting => throw .waiting
  | _ => return

-- ---------------------------------------------------------------------------
-- Fields
-- ---------------------------------------------------------------------------

/-- What the expansion of a word is made of. -/
inductive Mark where
  /-- A byte, which may have a meaning in a pattern, or separate fields. -/
  | byte (byte : UInt8) (active splits : Bool)
  /-- Quotes, so that there is a field even without bytes. -/
  | present
  /-- The place between two arguments. -/
  | boundary
deriving DecidableEq

/-- The fields of an expansion. `field` holds the one that is open, if any, last byte first. -/
def fieldsFrom (separators : Bytes) : Option Bytes → List Mark → List Bytes
  | field, [] => (field.map List.reverse).toList
  | field, .present :: marks => fieldsFrom separators (some (field.getD [])) marks
  | field, .boundary :: marks => (field.map List.reverse).toList ++ fieldsFrom separators none marks
  | field, .byte b _ splits :: marks =>
    if splits && separators.contains b then
      if b = 32 || b = 9 || b = 10 then
        (field.map List.reverse).toList ++ fieldsFrom separators none marks
      else (field.getD []).reverse :: fieldsFrom separators none marks
    else fieldsFrom separators (some (b :: field.getD [])) marks

def textOf (marks : List Mark) : Bytes :=
  marks.filterMap fun
    | .byte b _ _ => some b
    | .boundary => some 32
    | .present => none

def patternOf (marks : List Mark) : List PatternByte :=
  marks.filterMap fun
    | .byte b active _ => some ⟨b, active⟩
    | .boundary => some ⟨32, true⟩
    | .present => none

/-- The value of a parameter as part of a word. -/
def valueMarks (quoted : Bool) (value : Bytes) : List Mark :=
  value.map fun b => .byte b (!quoted) (!quoted)

/-- All arguments as part of a word, each a field of its own unless they are joined. -/
def argMarks (quoted joined : Bool) (args : List Bytes) : List Mark :=
  if quoted && joined then valueMarks true (List.intercalate [32] args)
  else (args.map fun arg =>
    if quoted then .present :: valueMarks true arg else valueMarks false arg).intersperse [.boundary]
      |>.flatten

-- ---------------------------------------------------------------------------
-- Reading
-- ---------------------------------------------------------------------------

/-- Cuts a line into as many fields as there are names, the last of which takes all that is left. A
byte is paired with whether a backslash stood before it. -/
def splitLine (separators : Bytes) : List (List Char) → List (UInt8 × Bool) → List (List Char × Bytes)
  | [], _ => []
  | names, line =>
    let isBlank (p : UInt8 × Bool) : Bool :=
      !p.2 && separators.contains p.1 && (p.1 = 32 || p.1 = 9 || p.1 = 10)
    let isSeparator (p : UInt8 × Bool) : Bool := !p.2 && separators.contains p.1
    let line := line.dropWhile isBlank
    match names with
    | [] => []
    | [name] => [(name, ((line.reverse.dropWhile isBlank).reverse).map (·.1))]
    | name :: names =>
      let field := line.takeWhile fun p => !isSeparator p
      let rest := (line.drop field.length).dropWhile isBlank
      let rest := match rest with
        | p :: more => if isSeparator p then more else rest
        | [] => []
      (name, field.map (·.1)) :: splitLine separators names rest

/-- The line at the front of some input with its escapes resolved unless it is `raw`, what follows it,
and whether it was ended. -/
def takeLine (raw : Bool) : Bytes → List (UInt8 × Bool) × Bytes × Bool
  | [] => ([], [], false)
  | 10 :: bytes => ([], bytes, true)
  | 92 :: b :: bytes =>
    if raw then
      let (line, rest) := takeLine raw (b :: bytes)
      ((92, false) :: line, rest)
    else
      let (line, rest) := takeLine raw bytes
      (if b = 10 then line else (b, true) :: line, rest)
  | b :: bytes =>
    let (line, rest) := takeLine raw bytes
    ((b, false) :: line, rest)
termination_by bytes => bytes.length

def readLine (raw : Bool) (names : List (List Char)) : Step Unit := do
  let s ← get
  let (line, rest, complete) := takeLine raw s.input
  if !complete && !s.ended then throw .waiting
  set { s with input := rest }
  for (name, value) in splitLine s.separators names line do
    modify (·.setVariable name value)
  setStatus (if complete then 0 else 1)

end Literate.Shell
