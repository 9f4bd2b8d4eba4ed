import Literate.Document.Flatten
import Literate.Document.Source
import Literate.Execution.Executor
import Literate.Execution.Fragment
import Literate.Execution.Indentation
import Literate.Text.Lines
import Literate.Text.Percent

/-!
# Which nodes run, and what becomes of them

Code runs where it has the class `python`, unless it has the class `noexec`. For one node, whose
children were dealt with before, `Dispatch.batch?` says which lines it has to run, if any, and
`Dispatch.respond` what their answer makes of it: it stays, perhaps changed (`Action.keep`), or gives
way to others (`Action.replace`).

* A code block runs line by line and goes away, or shows its transcript if it has the class `echo`.
* A code span gives way to its answer: to text, to Markdown with the class `md`, or it stays a code
  span with the class `asCode`.
* A code span that is a call of a shorthand runs without any class, and its answer is Markdown in a
  span.
* A formula or the address of an image has the first fragment in it replaced by its answer.

The calls of shorthands are recognised by a pattern that a library compiles before a document is
touched. The library may find the pattern too big (`PatternLimit`).
-/

namespace Literate

inductive Action where
  /-- It stays, perhaps changed. -/
  | keep (node : Node)
  /-- Others take its place. -/
  | replace (nodes : List Node)

namespace Dispatch

/-- Whether a text is a call of a function: its name, and on one line an argument in parentheses. -/
def isCallOf (name text : List Char) : Bool :=
  (name ++ ['(']).isPrefixOf text &&
    let argument := text.drop (name.length + 1)
    argument.getLast? = some ')' && !argument.dropLast.contains '\n'

def isShorthand (shorthands : List String) (text : String) : Bool :=
  shorthands.any fun name => isCallOf name.toList text.toList

/-- The lines of a code block as they are run: an open suite at the end is closed. -/
def blockLines (text : String) : List String :=
  Indentation.closeSuite (Text.lines text)

def isQuote (c : Char) : Bool :=
  c = '\'' || c = '"'

/-- The first fragment of a text, if it is to run. -/
def fragment? (text : String) : Option Fragment :=
  (Fragment.find? text).filter fun fragment =>
    fragment.hasTag "python" && !fragment.hasTag "noexec"

/-- A text with an answer in the place of its first fragment. Of the answer the characters that `keep`
picks are taken. -/
def splice (keep : Char → Bool) (text answer : String) : String :=
  match fragment? text with
  | some fragment => fragment.splice ((Text.trimBlanks answer.toList).filter keep)
  | none => text

def fragmentBatch (fragment : Fragment) : Batch :=
  .expression (String.ofList fragment.code)

def batch? (shorthands : List String) : Node → Option Batch
  | .inline (.image dest _ _) => (fragment? (Text.Percent.decode dest)).map fragmentBatch
  | .inline (.math _ text) => (fragment? text).map fragmentBatch
  | .inline (.code attr text) =>
    if attr.hasClass "noexec" then none
    else if isShorthand shorthands text || attr.hasClass "python" then some (.expression text)
    else none
  | .block (.codeBlock attr text) =>
    if attr.hasClass "noexec" || !attr.hasClass "python" then none
    else some ⟨blockLines text, attr.hasClass "echo", attr.hasClass "repl"⟩
  | _ => none

/-- What a code span becomes. -/
def respondToCode (shorthands : List String) (answer : String) (attr : Attr) (text : String) :
    Action :=
  if isShorthand shorthands text then
    .replace [.inline (.span .empty (flattenBlocks (parseFragment (Text.trim answer))))]
  else if attr.hasClass "asCode" then .keep (.inline (.code attr (Text.trim answer)))
  else if attr.hasClass "md" then .replace ((parseFragment (Text.trim answer)).map .block)
  else .replace [.inline (.text (Text.trim answer))]

/-- What a node becomes once there is an answer to what it asked to be run. Quotes around an answer are
dropped in the address of an image. -/
def respond (shorthands : List String) (answer : String) : Node → Action
  | .inline (.image dest title alt) =>
    let spliced := splice (fun c => !isQuote c) (Text.Percent.decode dest) answer
    .keep (.inline (.image (Text.Percent.encode spliced) title alt))
  | .inline (.math display text) =>
    .keep (.inline (.math display (splice (fun _ => true) text answer)))
  | .inline (.code attr text) => respondToCode shorthands answer attr text
  | .block (.codeBlock attr _) =>
    if attr.hasClass "echo" then .keep (.block (.codeBlock attr answer)) else .replace []
  | node => .keep node

end Dispatch

/-- Runs the code of one node, if it has any to run. -/
def dispatch {σ : Type} (launcher : Launcher σ) (shorthands : List String) (node : Node) :
    Effect (Executor σ) Action :=
  match Dispatch.batch? shorthands node with
  | some batch => return Dispatch.respond shorthands (← Executor.run launcher batch) node
  | none => return .keep node

/-- Why the pattern library refuses the pattern for the calls of some names, if it does. -/
abbrev PatternLimit := List String → Option String

/-- Compiles the pattern for the calls of shorthands. Without names there is nothing to compile. -/
def compileShorthands (limit : PatternLimit) (shorthands : List String) :
    Except ExecutionError Unit :=
  if shorthands.isEmpty then .ok ()
  else match limit shorthands with
    | some reason => .error (.config s!"invalid shorthand names: {reason}")
    | none => .ok ()

end Literate
