import Literate.Shell.Token

/-!
# Commands of a shell script

A script is a list of commands: simple ones, which set variables and run a program, and compound ones,
which choose and repeat. `readScript` reads them from the script's tokens.
-/

namespace Literate.Shell

/-- A stream that leads somewhere else: to the stream with a number, or to a file. -/
structure Redirection where
  stream : Nat
  toStream : Bool
  target : Word
deriving DecidableEq

inductive Command where
  /-- Settings of variables, then the words of a program and its arguments. -/
  | simple (line : Nat) (settings : List (List Char × Word)) (words : List Word)
  | redirected (command : Command) (redirections : List Redirection)
  | group (commands : List Command)
  /-- Commands whose settings are lost afterwards. -/
  | subshell (commands : List Command)
  /-- The output of the first is the input of the second. -/
  | pipe (first second : Command)
  | both (first second : Command)
  | either (first second : Command)
  | not (command : Command)
  | choice (condition yes no : List Command)
  /-- Repeats while the condition holds, or until it does. -/
  | loop (whileTrue : Bool) (condition body : List Command)
  /-- Repeats for each of some words, or for each argument of the script. -/
  | each (name : List Char) (words : Option (List Word)) (body : List Command)
  /-- The first arm with a pattern that a word matches. -/
  | select (word : Word) (arms : List (List Word × List Command))
  | define (name : List Char) (body : Command)
deriving Inhabited

/-- The text of a word that is one piece without quotes. -/
def bareText? : Word → Option (List Char)
  | [.text false text] => some text
  | _ => none

/-- The word that a token is if it is a single piece without quotes; such a word may be a keyword. -/
def Token.bare? : Token → Option String
  | .word _ w => (bareText? w).map String.ofList
  | _ => none

/-- The words that end a list of commands. -/
def closingWords : List String :=
  ["then", "elif", "else", "fi", "do", "done", "esac", "\x7d"]

/-- Whether a token begins no command. -/
def Token.closes (token : Token) : Bool :=
  match token with
  | .operator text => text = ")" || text = ";;"
  | _ => (token.bare?.map fun text => closingWords.contains text).getD false

def skipBreaks (ts : List Token) : List Token :=
  ts.dropWhile fun t => t = .operator "\n"

def expect (keyword : String) : List Token → Option (List Token)
  | [] => none
  | t :: ts => if t.bare? = some keyword then some ts else none

/-- A setting, if a word is one: a name, an equals sign, and the rest of the word. -/
def setting? : Word → Option (List Char × Word)
  | .text false text :: pieces =>
    let name := text.takeWhile isNameChar
    match text.drop name.length with
    | '=' :: value =>
      if (name.head?.map isNameStart).getD false then
        some (name, if value.isEmpty then pieces else .text false value :: pieces)
      else none
    | _ => none
  | _ => none

/-- The stream that an arrow redirects if no number stands before it. -/
def defaultStream (arrow : String) : Nat :=
  if arrow.startsWith "<" then 0 else 1

structure SimpleParts where
  settings : List (List Char × Word)
  words : List Word
  redirections : List Redirection

def readSimpleParts (parts : SimpleParts) : List Token → Option (SimpleParts × List Token)
  | .word _ word :: ts =>
    match setting? word with
    | some setting =>
      if parts.words.isEmpty then
        readSimpleParts { parts with settings := parts.settings ++ [setting] } ts
      else readSimpleParts { parts with words := parts.words ++ [word] } ts
    | none => readSimpleParts { parts with words := parts.words ++ [word] } ts
  | .redirection stream arrow :: .word _ target :: ts =>
    let redirection : Redirection :=
      ⟨stream.getD (defaultStream arrow), arrow.endsWith "&", target⟩
    readSimpleParts { parts with redirections := parts.redirections ++ [redirection] } ts
  | .redirection .. :: _ => none
  | ts => some (parts, ts)

def readRedirections (ts : List Token) : Option (List Redirection × List Token) := do
  let (parts, rest) ← readSimpleParts ⟨[], [], []⟩ ts
  if parts.words.isEmpty && parts.settings.isEmpty then some (parts.redirections, rest) else none

def withRedirections (command : Command) (redirections : List Redirection) : Command :=
  if redirections.isEmpty then command else .redirected command redirections

/-- The words up to the end of a line or a semicolon. -/
def readNames : List Token → Option (List Word × List Token)
  | .word _ word :: ts => (readNames ts).map fun (words, rest) => (word :: words, rest)
  | .operator ";" :: ts | .operator "\n" :: ts => some ([], ts)
  | _ => none

def readPatterns : List Token → Option (List Word × List Token)
  | .word _ word :: .operator "|" :: ts =>
    (readPatterns ts).map fun (words, rest) => (word :: words, rest)
  | .word _ word :: .operator ")" :: ts => some ([word], ts)
  | _ => none

/-- The line on which the first token stands, as far as it is known. -/
def lineOf : List Token → Nat
  | .word line _ :: _ => line
  | _ => 1

mutual

/-- Reads commands up to a token that begins none. -/
def readList : Nat → List Token → Option (List Command × List Token)
  | 0, _ => none
  | fuel + 1, ts =>
    match skipBreaks ts with
    | [] => some ([], [])
    | t :: ts =>
      if t.closes then some ([], t :: ts)
      else do
        let (command, rest) ← readChain fuel (t :: ts)
        match rest with
        | .operator ";" :: rest | .operator "\n" :: rest | .operator "&" :: rest =>
          let (commands, rest) ← readList fuel rest
          return (command :: commands, rest)
        | _ => return ([command], rest)

/-- Reads commands that depend on one another's success. -/
def readChain : Nat → List Token → Option (Command × List Token)
  | 0, _ => none
  | fuel + 1, ts => do
    let (first, rest) ← readPipe fuel ts
    readChainAfter fuel first rest

def readChainAfter : Nat → Command → List Token → Option (Command × List Token)
  | 0, _, _ => none
  | fuel + 1, first, ts =>
    match ts with
    | .operator "&&" :: ts => do
      let (second, rest) ← readPipe fuel (skipBreaks ts)
      readChainAfter fuel (.both first second) rest
    | .operator "||" :: ts => do
      let (second, rest) ← readPipe fuel (skipBreaks ts)
      readChainAfter fuel (.either first second) rest
    | _ => some (first, ts)

/-- Reads commands whose output is the next one's input. -/
def readPipe : Nat → List Token → Option (Command × List Token)
  | 0, _ => none
  | fuel + 1, ts =>
    match expect "!" ts with
    | some ts => do
      let (command, rest) ← readPipe fuel ts
      return (.not command, rest)
    | none => do
      let (first, rest) ← readCommand fuel ts
      match rest with
      | .operator "|" :: rest => do
        let (second, rest) ← readPipe fuel (skipBreaks rest)
        return (.pipe first second, rest)
      | _ => return (first, rest)

def readCommand : Nat → List Token → Option (Command × List Token)
  | 0, _ => none
  | fuel + 1, ts =>
    match ts with
    | .word _ name :: .operator "(" :: .operator ")" :: rest => do
      let (body, rest) ← readCommand fuel (skipBreaks rest)
      return (.define (← bareText? name) body, rest)
    | _ =>
      match readCompound fuel ts with
      | some (some command, rest) => do
        let (redirections, rest) ← readRedirections rest
        return (withRedirections command redirections, rest)
      | some (none, _) => do
        let (parts, rest) ← readSimpleParts ⟨[], [], []⟩ ts
        if parts.words.isEmpty && parts.settings.isEmpty && parts.redirections.isEmpty then none
        else
          return (withRedirections (.simple (lineOf ts) parts.settings parts.words) parts.redirections,
            rest)
      | none => none

/-- Reads a compound command; there is none if its first token begins a simple one. -/
def readCompound : Nat → List Token → Option (Option Command × List Token)
  | 0, _ => none
  | fuel + 1, ts =>
    match ts with
    | .operator "(" :: ts => do
      let (commands, rest) ← readList fuel ts
      match rest with
      | .operator ")" :: rest => return (some (.subshell commands), rest)
      | _ => none
    | t :: ts =>
      match t.bare? with
      | some "\x7b" => do
        let (commands, rest) ← readList fuel ts
        return (some (.group commands), ← expect "\x7d" rest)
      | some "if" => do
        let (command, rest) ← readChoice fuel ts
        return (some command, rest)
      | some "while" => do
        let (command, rest) ← readLoop fuel true ts
        return (some command, rest)
      | some "until" => do
        let (command, rest) ← readLoop fuel false ts
        return (some command, rest)
      | some "for" => do
        let (command, rest) ← readEach fuel ts
        return (some command, rest)
      | some "case" => do
        let (command, rest) ← readSelect fuel ts
        return (some command, rest)
      | _ => some (none, t :: ts)
    | [] => none

def readChoice : Nat → List Token → Option (Command × List Token)
  | 0, _ => none
  | fuel + 1, ts => do
    let (condition, rest) ← readList fuel ts
    let (yes, rest) ← readList fuel (← expect "then" rest)
    match rest with
    | [] => none
    | t :: rest =>
      match t.bare? with
      | some "elif" => do
        let (no, rest) ← readChoice fuel rest
        return (.choice condition yes [no], rest)
      | some "else" => do
        let (no, rest) ← readList fuel rest
        return (.choice condition yes no, ← expect "fi" rest)
      | some "fi" => some (.choice condition yes [], rest)
      | _ => none

def readBody : Nat → List Token → Option (List Command × List Token)
  | 0, _ => none
  | fuel + 1, ts => do
    let (body, rest) ← readList fuel (← expect "do" (skipBreaks ts))
    return (body, ← expect "done" rest)

def readLoop : Nat → Bool → List Token → Option (Command × List Token)
  | 0, _, _ => none
  | fuel + 1, whileTrue, ts => do
    let (condition, rest) ← readList fuel ts
    let (body, rest) ← readBody fuel rest
    return (.loop whileTrue condition body, rest)

def readEach : Nat → List Token → Option (Command × List Token)
  | fuel + 1, .word _ word :: ts => do
    let name ← bareText? word
    match expect "in" (skipBreaks ts) with
    | some rest =>
      let (words, rest) ← readNames rest
      let (body, rest) ← readBody fuel rest
      return (.each name (some words) body, rest)
    | none =>
      let rest := match ts with
        | .operator ";" :: rest => rest
        | _ => ts
      let (body, rest) ← readBody fuel rest
      return (.each name none body, rest)
  | _, _ => none

def readSelect : Nat → List Token → Option (Command × List Token)
  | fuel + 1, .word _ word :: ts => do
    let (arms, rest) ← readArms fuel (← expect "in" (skipBreaks ts))
    return (.select word arms, rest)
  | _, _ => none

def readArms : Nat → List Token → Option (List (List Word × List Command) × List Token)
  | 0, _ => none
  | fuel + 1, ts =>
    match expect "esac" (skipBreaks ts) with
    | some rest => some ([], rest)
    | none => do
      let ts := match skipBreaks ts with
        | .operator "(" :: ts => ts
        | ts => ts
      let (patterns, rest) ← readPatterns ts
      let (body, rest) ← readList fuel rest
      match rest with
      | .operator ";;" :: rest => do
        let (arms, rest) ← readArms fuel rest
        return ((patterns, body) :: arms, rest)
      | _ => return ([(patterns, body)], ← expect "esac" rest)

end

/-- The commands of a script, none if it is no script. -/
def readScript (script : List Char) : Option (List Command) := do
  let ts ← tokenize script
  let (commands, rest) ← readList (20 * (ts.length + 1)) ts
  if rest.isEmpty then some commands else none

end Literate.Shell
