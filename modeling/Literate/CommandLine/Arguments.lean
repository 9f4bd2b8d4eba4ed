import Literate.Text.Lines

/-!
# Arguments of a command

A command takes settings, each with a long name and perhaps a letter, and one argument besides.
`readArguments` sorts a list of arguments into these. It stops at the first that is wrong, or that asks
for help or for the version.

A flag stands for itself, letters of flags may be written together, and a value follows its name behind
an equals sign, as the next argument, or right behind the letter. What may not be repeated is wrong the
second time.
-/

namespace Literate.CommandLine

/-- What a setting takes. -/
inductive Arity where
  | flag
  /-- One value. -/
  | value
  /-- One value, which names a file and so is not empty. -/
  | path
  /-- A value each time, any number of times. -/
  | values
  /-- Nothing: it asks for help. -/
  | help
  /-- Nothing: it asks for the version. -/
  | version
deriving DecidableEq

/-- Something that can be set on the command line. -/
structure Setting where
  long : String
  letter : Option Char
  arity : Arity

/-- Why reading stops. -/
inductive Stop where
  | usage
  | help
  | version
deriving DecidableEq

/-- The arguments that were read: settings by their long names, and those besides. -/
structure Given where
  settings : List (String × String)
  others : List String

namespace Given

def empty : Given := ⟨[], []⟩

def isSet (given : Given) (long : String) : Bool :=
  given.settings.any (·.1 = long)

def value? (given : Given) (long : String) : Option String :=
  given.settings.lookup long

def values (given : Given) (long : String) : List String :=
  given.settings.filterMap fun (name, value) => if name = long then some value else none

def set (given : Given) (setting : Setting) (value : String) : Except Stop Given :=
  if setting.arity ≠ .values && given.isSet setting.long then .error .usage
  else if setting.arity = .path && value.isEmpty then .error .usage
  else .ok { given with settings := given.settings ++ [(setting.long, value)] }

/-- Adds an argument besides the settings; there is room for one, and it is not empty. -/
def add (given : Given) (argument : String) : Except Stop Given :=
  if given.others.isEmpty && !argument.isEmpty then .ok { given with others := [argument] }
  else .error .usage

end Given

/-- Whether an argument names settings: it begins with a dash and is more than that. -/
def isSettingName (argument : String) : Bool :=
  argument.startsWith "-" && argument ≠ "-"

/-- What a setting that takes no value does. -/
def Setting.raise (setting : Setting) (given : Given) : Except Stop Given :=
  match setting.arity with
  | .help => .error .help
  | .version => .error .version
  | _ => given.set setting ""

def Setting.takesValue (setting : Setting) : Bool :=
  setting.arity = .value || setting.arity = .path || setting.arity = .values

/-- A setting with the next argument as its value, and the arguments behind it. -/
def setNext (given : Given) (setting : Setting) : List String → Except Stop (Given × List String)
  | [] => .error .usage
  | argument :: arguments =>
    if isSettingName argument then .error .usage
    else return (← given.set setting argument, arguments)

/-- Reads the settings of an argument behind one dash. -/
def readLetters (settings : List Setting) (given : Given) (arguments : List String) :
    List Char → Except Stop (Given × List String)
  | [] => .ok (given, arguments)
  | c :: cs =>
    match settings.find? fun setting => setting.letter = some c with
    | none => .error .usage
    | some setting =>
      if setting.takesValue then
        match cs with
        | [] => setNext given setting arguments
        | '=' :: value => return (← given.set setting (String.ofList value), arguments)
        | value => return (← given.set setting (String.ofList value), arguments)
      else do readLetters settings (← setting.raise given) arguments cs

/-- Reads the setting of an argument behind two dashes. -/
def readLong (settings : List Setting) (given : Given) (arguments : List String) (cs : List Char) :
    Except Stop (Given × List String) :=
  let long := String.ofList (cs.takeWhile (· ≠ '='))
  match settings.find? fun setting => setting.long = long with
  | none => .error .usage
  | some setting =>
    match cs.drop long.length with
    | [] =>
      if setting.takesValue then setNext given setting arguments
      else return (← setting.raise given, arguments)
    | _ :: value =>
      if setting.takesValue then return (← given.set setting (String.ofList value), arguments)
      else .error .usage

/-- Reads the settings at the front of a list of arguments, up to the first that is none; `fuel` bounds
the number of arguments. -/
def readSettings (settings : List Setting) :
    Nat → Given → List String → Except Stop (Given × List String)
  | 0, given, arguments => .ok (given, arguments)
  | _ + 1, given, [] => .ok (given, [])
  | fuel + 1, given, argument :: arguments =>
    match argument.toList with
    | ['-', '-'] => .ok (given, argument :: arguments)
    | '-' :: '-' :: cs => do
      let (given, arguments) ← readLong settings given arguments cs
      readSettings settings fuel given arguments
    | '-' :: c :: cs => do
      let (given, arguments) ← readLetters settings given arguments (c :: cs)
      readSettings settings fuel given arguments
    | _ => .ok (given, argument :: arguments)

/-- Sorts all arguments of a command. Behind two dashes no settings follow. -/
def readArguments (settings : List Setting) :
    Nat → Given → List String → Except Stop Given
  | 0, given, _ => .ok given
  | fuel + 1, given, arguments => do
    match ← readSettings settings (arguments.length + 1) given arguments with
    | (given, []) => return given
    | (given, argument :: arguments) =>
      if argument = "--" then arguments.foldlM Given.add given
      else readArguments settings fuel (← given.add argument) arguments

end Literate.CommandLine
