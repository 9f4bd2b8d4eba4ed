import Literate.CommandLine.Command
import Literate.Document.Excerpt
import Literate.Document.Outline
import Literate.Fixture.Suite
import Literate.Shell.Run

/-!
# Running commands

A command runs on the files of a directory. `livedoc` gives what it prints, its exit code, and the files
that are there afterwards.
-/

namespace Literate.CommandLine

/-- What a command leaves behind. -/
structure Outcome where
  code : Nat
  output : String
  errors : String
  files : Files

/-- Why a command fails: what it could not do, and the reasons for that, the nearest first. -/
structure Complaint where
  attempt : String
  reasons : List String

def Complaint.message (complaint : Complaint) : String :=
  "error: " ++ ": ".intercalate (complaint.attempt :: complaint.reasons) ++ "\n"

/-- The message of an error of a run, and the reason behind it if it has one of its own. -/
def reasonsOf (e : ExecutionError) : List String :=
  match e with
  | .spawn _ reason | .io reason => [e.message, reason]
  | .shape cause => [e.message, cause.message]
  | _ => [e.message]

def printed (lines : List String) : String :=
  String.join (lines.map (· ++ "\n"))

def version : String := "livedoc 0.1.0\n"

/-- Reads a file of settings. An error in them names the file. -/
def loadConfig (files : Files) (path : String) : Except ExecutionError Config :=
  match files.read path with
  | .error e => .error (.io e.message)
  | .ok text =>
    match Config.read text with
    | .error (.config reason) => .error (.config s!"{path}: {reason}")
    | result => result

/-- The settings of a session. -/
def sessionConfig (files : Files) (source : SessionSource) : Except Complaint Config := do
  let config ← match source.config with
    | none => pure Config.default
    | some path =>
      (loadConfig files path).mapError fun e => ⟨s!"cannot load config '{path}'", reasonsOf e⟩
  return { config with program := source.program.getD config.program }

/-- The programs that a session can start: the shell, which finds its scripts among the files. -/
def programsOf (files : Files) : Programs :=
  Shell.programs fun path => (files.readBytes path).toOption.map Text.Utf8.decodeLossy

/-- Executes a document that was parsed, and writes or prints the result. -/
def executeFile (files : Files) (file : String) (output : Option String) (source : SessionSource)
    (d : Document) : Except Complaint Outcome := do
  let config ← sessionConfig files source
  let result ← (executeWith (programsOf files) config d).mapError fun e =>
    ⟨s!"cannot execute '{file}'", reasonsOf e⟩
  match output with
  | none => return ⟨0, result.render, "", files⟩
  | some path =>
    let files ← (files.write path result.render).mapError fun e =>
      ⟨s!"cannot write '{path}'", [e.message]⟩
    return ⟨0, "", "", files⟩

def runCommand (files : Files) (invocation : Invocation) : Except Complaint Outcome := do
  match invocation.command with
  | .run file output source check tree =>
    let text ← (files.read file).mapError fun e => ⟨s!"cannot read '{file}'", [e.message]⟩
    match Document.parse text 0 with
    | .error errors => return ⟨1, "", String.join (errors.map (Excerpt.show file text)), files⟩
    | .ok d =>
      if check then return ⟨0, "", s!"ok: {file} parsed successfully\n", files⟩
      else if tree then return ⟨0, d.outline.render ++ "\n", "", files⟩
      else executeFile files file output source d
  | .test path categories list source =>
    let report (code : Nat) (lines : List String) : Outcome := ⟨code, "", printed lines, files⟩
    if list then
      if files.isFile path then return report 0 ["(single file, no categories)"]
      else return report 0 (Suite.listing path (.ofDirectory files path))
    else
      let config ← sessionConfig files source
      let run (headed : Bool) (suite : Suite) :=
        suite.run files (programsOf files) config invocation.colored headed
      if files.isFile path then
        let (code, lines) := run false [⟨"", [path]⟩]
        return report code lines
      else
        let suite := Suite.ofDirectory files path
        let chosen := suite.select categories
        let warnings := suite.warnings categories
        if suite.isEmpty then return report 1 [s!"no .test.md files found in {path}"]
        else if chosen.isEmpty then return report 1 (warnings ++ ["no matching categories found"])
        else
          let (code, lines) := run true chosen
          return report code (warnings ++ lines)

/-- Runs the program with arguments in a directory. -/
def livedoc (files : Files) (arguments : List String) : Outcome :=
  match readInvocation arguments with
  | .error .usage => ⟨2, "", "", files⟩
  | .error .help => ⟨0, "", "", files⟩
  | .error .version => ⟨0, version, "", files⟩
  | .ok invocation =>
    match runCommand files invocation with
    | .ok outcome => outcome
    | .error complaint => ⟨1, "", complaint.message, files⟩

end Literate.CommandLine
