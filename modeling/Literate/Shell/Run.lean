import Literate.Process
import Literate.Shell.Arithmetic
import Literate.Shell.Format
import Literate.Shell.State
import Literate.Shell.Test

/-!
# Running a script

A script runs on the input that has come so far. `program` gives what it puts out for that, and whether
it then waits for more input or has ended. It holds the usual commands that need no other program; of
files it knows only the one that is always empty.
-/

namespace Literate.Shell

/-- A number that an argument writes, or another one if there is no argument. -/
def countOf (args : List Bytes) (default : Nat) : Nat :=
  match args with
  | [] => default
  | arg :: _ => (Format.numberOf arg).toNat

/-- What `echo` writes: its arguments with blanks between them, and a line feed unless the first one is
`-n`. -/
def echoBytes (args : List Bytes) : Bytes :=
  let (bare, args) := match args with
    | [45, 110] :: args => (true, args)
    | args => (false, args)
  let text := charsOf (List.intercalate [32] args)
  let (bytes, stop) := Format.unescape (text.length + 1) text
  if bare || stop then bytes else bytes ++ [10]

def setAll (args : List Bytes) : Step Unit :=
  for arg in args do
    if arg.contains 61 then
      modify (·.setVariable (charsOf (arg.takeWhile (· ≠ 61))) ((arg.dropWhile (· ≠ 61)).drop 1))

/-- Runs a program that the shell has itself; the answer says whether there is one of this name. -/
def builtin (name : String) (args : List Bytes) : Step Bool := do
  match name with
  | ":" | "true" | "sleep" | "trap" | "umask" | "ulimit" | "wait" => setStatus 0
  | "false" => setStatus 1
  | "echo" => do emit false (echoBytes args); setStatus 0
  | "printf" => do
    let args := if args.head? = some [45, 45] then args.tail else args
    match args with
    | [] => setStatus 2
    | format :: args => do
      emit false (Format.print (args.length + 1) (charsOf format) args)
      setStatus 0
  | "read" => do
    let raw := args.head? = some [45, 114]
    let names := (if raw then args.tail else args).map charsOf
    readLine raw (if names.isEmpty then ["REPLY".toList] else names)
  | "cat" => do
    let s ← get
    emit false s.input
    modify fun s => { s with input := [] }
    if !s.ended then throw .waiting
    setStatus 0
  | "exit" => do setStatus (countOf args (← get).status % 256); throw .exited
  | "kill" => throw .exited
  | "return" => do setStatus (countOf args (← get).status % 256); throw .returned
  | "break" => do setStatus 0; throw (.leave (countOf args 1 - 1))
  | "continue" => do setStatus 0; throw (.again (countOf args 1 - 1))
  | "shift" => do
    modify fun s => { s with args := s.args.drop (countOf args 1) }
    setStatus 0
  | "set" => do
    if args.head? = some [45, 45] then modify fun s => { s with args := args.tail }
    setStatus 0
  | "export" | "readonly" | "local" => do setAll args; setStatus 0
  | "unset" => do
    for arg in args do modify (·.unsetVariable (charsOf arg))
    setStatus 0
  | "test" => setStatus (if condition args then 0 else 1)
  | "[" => setStatus (if condition args.dropLast then 0 else 1)
  | _ => return false
  return true

def redirect (stream : Nat) (toStream : Bool) (target : Bytes) (s : State) : State :=
  let shown : Bool :=
    toStream && if target = [50] then s.shownErr else if target = [49] then s.shownOut else false
  match stream with
  | 0 => if toStream then s else { s with input := [], ended := true }
  | 1 => { s with shownOut := shown }
  | 2 => { s with shownErr := shown }
  | _ => s

/-- Runs a body once, and says whether its loop goes on. -/
def turn (body : Step Unit) : Step Bool :=
  tryCatch (do body; return true) fun
    | .leave 0 => return false
    | .leave (n + 1) => throw (.leave n)
    | .again 0 => return true
    | .again (n + 1) => throw (.again n)
    | flow => throw flow

mutual

def expandPiece : Nat → Piece → Step (List Mark)
  | 0, _ => throw .waiting
  | _ + 1, .text quoted text =>
    let marks := (bytesOf text).map fun b => Mark.byte b (!quoted) false
    return if quoted then .present :: marks else marks
  | fuel + 1, .parameter quoted name edit => do
    let s ← get
    let value := s.value? name
    let isEmpty := (value.getD []).isEmpty
    match edit with
    | none =>
      if name = ['@'] then return argMarks quoted false s.args
      else if name = ['*'] then return argMarks quoted true s.args
      else return valueMarks quoted (value.getD [])
    | some (.length, _) => return valueMarks quoted (bytesOf (toString (value.getD []).length).toList)
    | some (.dropFront longest, word) =>
      let pattern := patternOf (← expand fuel (readEditWord word))
      return valueMarks quoted (Pattern.cutFront longest pattern (value.getD []))
    | some (.dropEnd longest, word) =>
      let pattern := patternOf (← expand fuel (readEditWord word))
      return valueMarks quoted (Pattern.cutEnd longest pattern (value.getD []))
    | some (.fallback forEmpty, word) =>
      if value.isNone || (forEmpty && isEmpty) then
        return valueMarks quoted (textOf (← expand fuel (readEditWord word)))
      else return valueMarks quoted (value.getD [])
    | some (.instead forEmpty, word) =>
      if value.isNone || (forEmpty && isEmpty) then return []
      else return valueMarks quoted (textOf (← expand fuel (readEditWord word)))
  | fuel + 1, .arithmetic quoted expression => do
    let text := charsOf (textOf (← expand fuel (readEditWord expression)))
    let s ← get
    match Arithmetic.evaluate (fun name => charsOf ((s.value? name).getD [])) text with
    | some n => return valueMarks quoted (bytesOf (toString n).toList)
    | none => do setStatus 2; throw .exited
  | fuel + 1, .output quoted script => do
    let bytes ← capture (isolate (match readScript script with
      | some commands => runList fuel commands
      | none => setStatus 2))
    return valueMarks quoted (bytes.reverse.dropWhile (· = 10)).reverse

def expand : Nat → Word → Step (List Mark)
  | 0, _ => throw .waiting
  | _ + 1, [] => return []
  | fuel + 1, piece :: pieces => return (← expandPiece fuel piece) ++ (← expand fuel pieces)

def expandAll : Nat → List Word → Step (List Bytes)
  | 0, _ => throw .waiting
  | _ + 1, [] => return []
  | fuel + 1, word :: words => do
    let marks ← expand fuel word
    let fields := fieldsFrom (← get).separators none marks
    return fields ++ (← expandAll fuel words)

def assign : Nat → List (List Char × Word) → Step Unit
  | 0, _ => throw .waiting
  | _ + 1, [] => return
  | fuel + 1, (name, word) :: settings => do
    let value := textOf (← expand fuel word)
    modify (·.setVariable name value)
    assign fuel settings

def runProgram : Nat → Nat → Bytes → List Bytes → Step Unit
  | 0, _, _, _ => throw .waiting
  | fuel + 1, line, name, args => do
    let s ← get
    match s.functions.lookup (charsOf name) with
    | some body => do
      set { s with args }
      tryCatch (runCommand fuel body) fun
        | .returned => return
        | flow => throw flow
      modify fun inner => { inner with args := s.args }
    | none =>
      let text := String.ofList (charsOf name)
      if text = "eval" then
        match readScript (charsOf (List.intercalate [32] args)) with
        | some commands => runList fuel commands
        | none => setStatus 2
      else if text = "exec" then
        match args with
        | [] => setStatus 0
        | name :: args => do runProgram fuel line name args; throw .exited
      else if !(← builtin text args) then do
        emit true (s.name ++ bytesOf s!": {line}: ".toList ++ name ++ bytesOf ": not found\n".toList)
        setStatus 127

def runCommand : Nat → Command → Step Unit
  | 0, _ => throw .waiting
  | fuel + 1, .simple line settings words => do
    match ← expandAll fuel words with
    | [] => do
      setStatus 0
      assign fuel settings
    | name :: args => do
      let before := (← get).settings
      assign fuel settings
      runProgram fuel line name args
      if !settings.isEmpty then
        for (setting, _) in settings do
          match before.lookup setting with
          | some value => modify (·.setVariable setting value)
          | none => modify (·.unsetVariable setting)
  | fuel + 1, .redirected command redirections => do
    let s ← get
    applyAll fuel redirections
    let isFromFile := redirections.any fun r => r.stream = 0 && !r.toStream
    let restore (inner : State) : State :=
      let inner := { inner with shownOut := s.shownOut, shownErr := s.shownErr }
      if isFromFile then { inner with input := s.input, ended := s.ended } else inner
    tryCatch (runCommand fuel command) fun flow => do modify restore; throw flow
    modify restore
  | fuel + 1, .group commands => runList fuel commands
  | fuel + 1, .subshell commands => isolate (runList fuel commands)
  | fuel + 1, .pipe first second => do
    let bytes ← capture (isolate (runCommand fuel first))
    let s ← get
    set { s with input := bytes, ended := true }
    isolate (runCommand fuel second)
    modify fun inner => { inner with input := s.input, ended := s.ended }
  | fuel + 1, .both first second => do
    runCommand fuel first
    if (← get).status = 0 then runCommand fuel second
  | fuel + 1, .either first second => do
    runCommand fuel first
    if (← get).status ≠ 0 then runCommand fuel second
  | fuel + 1, .not command => do
    runCommand fuel command
    setStatus (if (← get).status = 0 then 1 else 0)
  | fuel + 1, .choice condition yes no => do
    runList fuel condition
    if (← get).status = 0 then runList fuel yes
    else do
      setStatus 0
      runList fuel no
  | fuel + 1, .loop whileTrue condition body => runLoop fuel whileTrue condition body
  | fuel + 1, .each name words body => do
    let values ← match words with
      | some words => expandAll fuel words
      | none => pure (← get).args
    setStatus 0
    runEach fuel name values body
  | fuel + 1, .select word arms => do
    let text := textOf (← expand fuel word)
    setStatus 0
    runSelect fuel text arms
  | _ + 1, .define name body => do
    modify fun s => { s with functions := (name, body) :: s.functions }
    setStatus 0

/-- Leads the streams of a command where its redirections say. -/
def applyAll : Nat → List Redirection → Step Unit
  | 0, _ => throw .waiting
  | _ + 1, [] => return
  | fuel + 1, r :: rs => do
    let target := textOf (← expand fuel r.target)
    modify (redirect r.stream r.toStream target)
    applyAll fuel rs

def runList : Nat → List Command → Step Unit
  | 0, _ => throw .waiting
  | _ + 1, [] => return
  | fuel + 1, command :: commands => do
    runCommand fuel command
    runList fuel commands

/-- Runs a body as long as a condition holds, or until it does. -/
def runLoop : Nat → Bool → List Command → List Command → Step Unit
  | 0, _, _, _ => throw .waiting
  | fuel + 1, whileTrue, condition, body => do
    let goesOn ← turn (do
      runList fuel condition
      if ((← get).status == 0) != whileTrue then throw (.leave 0)
      runList fuel body)
    if goesOn then runLoop fuel whileTrue condition body else setStatus 0

def runEach : Nat → List Char → List Bytes → List Command → Step Unit
  | 0, _, _, _ => throw .waiting
  | _ + 1, _, [], _ => return
  | fuel + 1, name, value :: values, body => do
    modify (·.setVariable name value)
    if ← turn (runList fuel body) then runEach fuel name values body

def runSelect : Nat → Bytes → List (List Word × List Command) → Step Unit
  | 0, _, _ => throw .waiting
  | _ + 1, _, [] => return
  | fuel + 1, text, (patterns, body) :: arms => do
    if ← fitsAny fuel text patterns then runList fuel body else runSelect fuel text arms

def fitsAny : Nat → Bytes → List Word → Step Bool
  | 0, _, _ => throw .waiting
  | _ + 1, _, [] => return false
  | fuel + 1, text, word :: words => do
    if Pattern.matches (patternOf (← expand fuel word)) text then return true
    else fitsAny fuel text words

end

/-- How many steps may be nested in one another or repeated: some for each byte of the input. -/
def fuelFor (input : Bytes) : Nat :=
  20000 + input.length

/-- A script as a program: with a name, arguments and an environment. A text that is no script says so
and ends. -/
def program (script : List Char) (name : String) (args : List String) (env : List (String × String)) :
    Program :=
  match readScript script with
  | none => fun _ => ⟨bytesOf s!"{name}: 1: Syntax error\n".toList, false⟩
  | some commands => fun input =>
    let start : State :=
      { settings := env.map fun (key, value) => (key.toList, bytesOf value.toList)
        functions := []
        name := bytesOf name.toList
        args := args.map fun arg => bytesOf arg.toList
        input := input
        ended := false
        output := []
        shownOut := true
        shownErr := true
        status := 0 }
    let (result, s) := (runList (fuelFor input) commands).run start
    match result with
    | .error .waiting => ⟨s.outputBytes, true⟩
    | _ => ⟨s.outputBytes, false⟩

/-- The reason for which a program that is not there does not start. -/
def notFound : String := "No such file or directory (os error 2)"

/-- A system whose only program is this shell. It takes a script as an argument behind `-c`, or the
name of a file, of which `read?` gives the text. -/
def programs (read? : String → Option (List Char)) : Programs := fun name args env =>
  if name ∈ ["sh", "/bin/sh", "/usr/bin/sh"] then
    match args with
    | "-c" :: script :: args => .ok (program script.toList (args.headD name) args.tail env)
    | file :: args =>
      match read? file with
      | some script => .ok (program script file args env)
      | none =>
        .ok fun _ => ⟨bytesOf s!"{name}: 0: cannot open {file}: No such file\n".toList, false⟩
    | [] => .ok fun _ => ⟨[], true⟩
  else .error notFound

end Literate.Shell
