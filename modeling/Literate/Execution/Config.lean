import Literate.Execution.Error
import Literate.Execution.Encoding
import Literate.Execution.Transcript
import Literate.Toml.Decode

/-!
# Settings of a session

How the interpreter is started and talked to. Every setting has a default, so a file of settings names
only what it changes (`Config.read`). A name that is no setting is an error.
-/

namespace Literate

/-- How the interpreter is started and talked to. -/
structure Config where
  program : String
  args : List String
  /-- Variables by name, added to the environment. -/
  env : List (String × String)
  prompt : String
  continuation : String
  exitCommand : String
  /-- Lines that run right after the start, whose output is dropped. -/
  prelude : List String
  /-- Functions whose calls run without a tag when they are all that a code span holds. -/
  shorthands : List String
deriving DecidableEq

namespace Config

/-- The settings that hold unless others are given. -/
def default : Config where
  program := "python3"
  args := ["-i", "-q", "-u"]
  env := [("PYTHON_BASIC_REPL", "1")]
  prompt := ">>> "
  continuation := "... "
  exitCommand := "exit()"
  prelude := []
  shorthands := ["pq", "pmd", "pf", "pi"]

instance : Inhabited Config := ⟨default⟩

def markers (config : Config) : Markers :=
  ⟨config.prompt, config.continuation⟩

/-- Refuses settings that no session can work with. -/
def validate (config : Config) : Except ExecutionError Unit :=
  if config.program.isEmpty then .error (.config "program must not be empty")
  else if config.prompt.isEmpty || config.continuation.isEmpty then
    .error (.config "prompt and continuation markers must not be empty")
  else if config.prompt = config.continuation then
    .error (.config "prompt and continuation markers must differ")
  else .ok ()

/-- What must hold before a document is touched. Output is UTF-8 on this platform, whatever the
environment says. -/
def preflight (config : Config) : Except ExecutionError Unit := do
  config.validate
  Encoding.check false (config.env.lookup Encoding.variableName)

def fieldNames : List String :=
  ["program", "args", "env", "prompt", "continuation", "exit_command", "prelude", "shorthands"]

def set (config : Config) (key : Toml.Key) (item : Toml.Item) : Except Toml.ReadError Config :=
  match key.name with
  | "program" => return { config with program := ← item.asString key.span }
  | "args" => return { config with args := ← item.asStrings key.span }
  | "env" => return { config with env := ← item.asStringMap key.span }
  | "prompt" => return { config with prompt := ← item.asString key.span }
  | "continuation" => return { config with continuation := ← item.asString key.span }
  | "exit_command" => return { config with exitCommand := ← item.asString key.span }
  | "prelude" => return { config with prelude := ← item.asStrings key.span }
  | "shorthands" => return { config with shorthands := ← item.asStrings key.span }
  | _ => Toml.unknownField key fieldNames

/-- Reads settings, the defaults in place of those that are not given. -/
def read (text : String) : Except ExecutionError Config :=
  match Toml.decode default set text with
  | .error e => .error (.config e.message)
  | .ok config => do
    config.validate
    return config

end Config

end Literate
