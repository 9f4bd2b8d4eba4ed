import Literate.Execution.Config
import Literate.Execution.Indentation
import Literate.Execution.Walk
import Literate.Process

/-!
# Sessions with an interpreter

A session sends lines to a child process one at a time and reads a turn for each. `Session.start` waits
for the first prompt, `Session.run` gives the answer to a batch of lines, and `Config.launcher` puts
both to work for an executor, with the prelude in between. Sending to a process that has ended, and
reading on after its last output, are the same error.
-/

namespace Literate

/-- A child that answers in turns, and the markers that end them. -/
structure Session where
  child : Child
  markers : Markers

/-- Output in the pieces in which it is read, then its end. -/
def readingsOf (bytes : List UInt8) : List Reading :=
  if _h : bytes.isEmpty then []
  else .bytes (bytes.take Reading.limit) :: readingsOf (bytes.drop Reading.limit)
termination_by bytes.length
decreasing_by
  have : bytes ≠ [] := by simpa using _h
  have := List.length_pos_iff.2 this
  simp only [List.length_drop, Reading.limit]
  omega

def bytesIn : List Reading → Nat
  | [] => 0
  | .bytes bytes :: readings => bytes.length + bytesIn readings
  | _ :: readings => bytesIn readings

namespace Session

def readTurn : Effect Session Turn := fun session =>
  let (turn, left) := session.markers.readTurn (readingsOf session.child.unread)
  (turn, { session with child := session.child.readAllBut (bytesIn left) })

def send (line : String) : Effect Session Unit := do
  if (← get).child.isGone then throw (.terminated "")
  let bytes := Text.Utf8.encode (line.toList ++ ['\n'])
  modify fun session => { session with child := session.child.send bytes }

/-- Sends lines and adds each, with the turn that answers it, to a transcript. -/
def exchange (transcript : List Char) : List String → Effect Session (List Char)
  | [] => return transcript
  | line :: lines => do
    send line
    let turn ← readTurn
    let answer := Transcript.dropFirstBreak turn.text.toList
    exchange (transcript ++ line.toList ++ '\n' :: answer) lines

/-- Runs lines and gives their shaped transcript. -/
def run (batch : Batch) : Effect Session String := do
  let markers := (← get).markers
  let transcript ← exchange markers.prompt.toList (Indentation.normalize batch.lines)
  return Transcript.shape markers batch.echo batch.repl (String.ofList transcript)

/-- Sends the line that ends the interpreter. One that has ended already has nothing left to end. -/
def close (exitCommand : String) : Effect Session Unit :=
  tryCatch (send exitCommand) fun
    | .terminated _ => return
    | e => throw e

/-- Starts an interpreter and waits for its first prompt. -/
def start (programs : Programs) (config : Config) : Except ExecutionError Session :=
  match programs config.program config.args config.env with
  | .error reason => .error (.spawn config.program reason)
  | .ok program =>
    let (banner, session) := readTurn.run ⟨.start program, config.markers⟩
    banner.map fun _ => session

/-- A session whose prelude has run. -/
def launch (programs : Programs) (config : Config) : Except ExecutionError Session := do
  let session ← start programs config
  if config.prelude.isEmpty then return session
  let (answer, session) := (run ⟨config.prelude, false, false⟩).run session
  answer.map fun _ => session

end Session

namespace Config

/-- The launcher that works by sessions. Its state is the session, if one was started. -/
def launcher (programs : Programs) (config : Config) : Launcher (Option Session) where
  preflight := config.preflight
  launch := fun _ =>
    match Session.launch programs config with
    | .ok session => (.ok (), some session)
    | .error e => (.error e, none)
  run batch := fun
    | none => (.error .closed, none)
    | some session =>
      let (answer, session) := (Session.run batch).run session
      (answer, some session)
  close := fun
    | none => (.error .closed, none)
    | some session => (((Session.close config.exitCommand).run session).1, none)

end Config

/-- Executes a document with the interpreter that the settings name. -/
def executeWith (programs : Programs) (config : Config) (d : Document) :
    Except ExecutionError Document :=
  ((execute (config.launcher programs) config.shorthands d).run none).1

end Literate
