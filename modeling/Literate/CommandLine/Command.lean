import Literate.CommandLine.Arguments

/-!
# Commands

`livedoc run` executes a document, `livedoc test` runs fixtures; a first argument that is no command
stands for a document to run. `Command.read` makes a command of the arguments.
-/

namespace Literate.CommandLine

/-- Where the settings of the session come from. -/
structure SessionSource where
  config : Option String
  program : Option String

inductive Command where
  /-- Executes a document; or only parses it and says so, or shows its tree. -/
  | run (file : String) (output : Option String) (source : SessionSource) (check tree : Bool)
  /-- Runs fixtures; or only lists their categories. -/
  | test (path : String) (categories : List String) (list : Bool) (source : SessionSource)

/-- A command, and whether its report may have colours. -/
structure Invocation where
  command : Command
  colored : Bool

def commonSettings : List Setting :=
  [⟨"no-color", none, .flag⟩, ⟨"verbose", some 'v', .flag⟩, ⟨"help", some 'h', .help⟩]

def topSettings : List Setting :=
  commonSettings ++ [⟨"version", some 'V', .version⟩]

def sessionSettings : List Setting :=
  [⟨"config", none, .path⟩, ⟨"python", none, .value⟩]

def runSettings : List Setting :=
  commonSettings ++ sessionSettings ++
    [⟨"output", some 'o', .path⟩, ⟨"check", none, .flag⟩, ⟨"ast", none, .flag⟩]

def testSettings : List Setting :=
  commonSettings ++ sessionSettings ++
    [⟨"category", some 'c', .values⟩, ⟨"list-categories", none, .flag⟩]

def commandNames : List String := ["run", "test", "help"]

/-- The arguments with the command that they leave out: if the first that begins with no dash names no
command, `run` stands before it. -/
def withDefaultCommand : List String → List String
  | [] => []
  | argument :: arguments =>
    if argument.startsWith "-" then argument :: withDefaultCommand arguments
    else if commandNames.contains argument then argument :: arguments
    else "run" :: argument :: arguments

/-- What the settings say about the session. -/
def sourceOf (given : Given) : SessionSource :=
  ⟨given.value? "config", given.value? "python"⟩

def readCommand (name : String) (arguments : List String) : Except Stop (Command × Given) := do
  let settings := if name = "run" then runSettings else testSettings
  let given ← readArguments settings (arguments.length + 1) .empty arguments
  match given.others with
  | [path] =>
    let source := sourceOf given
    if name = "run" then
      return (.run path (given.value? "output") source (given.isSet "check") (given.isSet "ast"), given)
    else
      return (.test path (given.values "category") (given.isSet "list-categories") source, given)
  | _ => throw .usage

/-- What is asked for behind `help`: help, if that is for a command there is. -/
def readHelp (arguments : List String) : Stop :=
  match arguments with
  | [] => .help
  | [name] => if commandNames.contains name then .help else .usage
  | _ => .usage

/-- Makes a command of the arguments. -/
def readInvocation (arguments : List String) : Except Stop Invocation := do
  let arguments := withDefaultCommand arguments
  match ← readSettings topSettings (arguments.length + 1) .empty arguments with
  | (_, []) => throw .usage
  | (top, name :: arguments) =>
    if name = "help" then throw (readHelp arguments)
    else if name = "run" || name = "test" then
      let (command, given) ← readCommand name arguments
      return ⟨command, !(top.isSet "no-color" || given.isSet "no-color")⟩
    else throw .usage

end Literate.CommandLine
