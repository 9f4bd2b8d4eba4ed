/-!
# Words of a shell script

A word is made of pieces: text as it stands, and parameters, arithmetic and output of other scripts
that are put in when the word is expanded. `readWord` reads the word at the front of a text. Whether a
piece stood in quotes is kept, since quoted text is neither split nor a pattern.
-/

namespace Literate.Shell

/-- What is done to the value of a parameter before it is put in. -/
inductive Edit where
  /-- A pattern is cut off the front, at its shortest or at its longest. -/
  | dropFront (longest : Bool)
  | dropEnd (longest : Bool)
  /-- A word stands in for a parameter that is not set, or also for an empty one. -/
  | fallback (forEmpty : Bool)
  /-- A word replaces a parameter that is set, or set and not empty. -/
  | instead (forEmpty : Bool)
  | length
deriving DecidableEq

/-- A part of a word. The text of an edit, an expression or a script is read when it is needed. -/
inductive Piece where
  | text (quoted : Bool) (text : List Char)
  | parameter (quoted : Bool) (name : List Char) (edit : Option (Edit × List Char))
  | arithmetic (quoted : Bool) (expression : List Char)
  | output (quoted : Bool) (script : List Char)
deriving DecidableEq

abbrev Word := List Piece

def isNameStart (c : Char) : Bool := c.isAlpha || c = '_'

def isNameChar (c : Char) : Bool := c.isAlphanum || c = '_'

/-- A parameter with a name of one character that is no letter. -/
def isSpecialName (c : Char) : Bool :=
  c.isDigit || c = '@' || c = '*' || c = '#' || c = '?' || c = '-' || c = '$' || c = '!'

/-- The name of a parameter at the front of a text, and what follows. -/
def readParameterName : List Char → Option (List Char × List Char)
  | [] => none
  | c :: cs =>
    if isNameStart c then some (c :: cs.takeWhile isNameChar, cs.dropWhile isNameChar)
    else if isSpecialName c then some ([c], cs)
    else none

/-- The text up to the bracket that closes one opened before, and what follows it. Brackets in quotes
do not count. -/
def balanced («open» close : Char) : Nat → Option Char → List Char → Option (List Char × List Char)
  | _, _, [] => none
  | depth, quote, c :: cs =>
    let more (depth : Nat) (quote : Option Char) :=
      (balanced «open» close depth quote cs).map fun (text, rest) => (c :: text, rest)
    match quote with
    | some q => more depth (if c = q then none else some q)
    | none =>
      if c = close then if depth = 0 then some ([], cs) else more (depth - 1) none
      else if c = «open» then more (depth + 1) none
      else if c = '\'' || c = '"' then more depth (some c)
      else more depth none

/-- The edit at the front of a text that follows a parameter's name, and its word. -/
def readEdit : List Char → Option (Edit × List Char)
  | '#' :: '#' :: cs => some (.dropFront true, cs)
  | '#' :: cs => some (.dropFront false, cs)
  | '%' :: '%' :: cs => some (.dropEnd true, cs)
  | '%' :: cs => some (.dropEnd false, cs)
  | ':' :: '-' :: cs => some (.fallback true, cs)
  | '-' :: cs => some (.fallback false, cs)
  | ':' :: '+' :: cs => some (.instead true, cs)
  | '+' :: cs => some (.instead false, cs)
  | _ => none

/-- A parameter from the text between its braces. -/
def bracedParameter (quoted : Bool) (cs : List Char) : Option Piece :=
  match cs with
  | '#' :: c :: cs => do
    let (name, rest) ← readParameterName (c :: cs)
    if rest.isEmpty then some (.parameter quoted name (some (.length, []))) else none
  | _ => do
    let (name, rest) ← readParameterName cs
    if rest.isEmpty then some (.parameter quoted name none)
    else some (.parameter quoted name (some (← readEdit rest)))

/-- The piece after a dollar sign, and what follows it. A dollar sign that begins nothing stands for
itself. -/
def readDollar (quoted : Bool) : List Char → Option (Piece × List Char)
  | '(' :: cs => do
    let (inner, rest) ← balanced '(' ')' 0 none cs
    match inner with
    | '(' :: expression =>
      if expression.getLast? = some ')' then some (.arithmetic quoted expression.dropLast, rest)
      else some (.output quoted inner, rest)
    | _ => some (.output quoted inner, rest)
  | '{' :: cs => do
    let (inner, rest) ← balanced '{' '}' 0 none cs
    return (← bracedParameter quoted inner, rest)
  | cs =>
    match readParameterName cs with
    | some (name, rest) => some (.parameter quoted name none, rest)
    | none => some (.text quoted ['$'], cs)

/-- A character that ends a word or begins something else in it. -/
def isPlain (c : Char) : Bool :=
  !(" \t\n;&|<>()'\"\\$".toList.contains c || c = '\x60')

/-- Whether a backslash in double quotes takes the meaning of a character away. -/
def isEscapable (c : Char) : Bool :=
  c = '$' || c = '\x60' || c = '"' || c = '\\'

/-- Where pieces stand, which says what ends them. -/
inductive Place where
  /-- Outside of quotes: at a blank or an operator. -/
  | «open»
  /-- In double quotes: at the closing quote. -/
  | quotes
  /-- Behind an edit: only at the end of the text. -/
  | edit
deriving DecidableEq

/-- Reads the pieces up to the end of their place. -/
def readPieces : Nat → Place → List Char → Option (Word × List Char)
  | 0, _, _ => none
  | _ + 1, place, [] => if place = .quotes then none else some ([], [])
  | fuel + 1, place, c :: cs =>
    let push (pieces : Word) (rest : List Char) :=
      (readPieces fuel place rest).map fun (word, rest) => (pieces ++ word, rest)
    let inQuotes : Bool := place = .quotes
    if c = '$' then do
      let (piece, rest) ← readDollar inQuotes cs
      push [piece] rest
    else if c = '\x60' then
      let script := cs.takeWhile (· ≠ '\x60')
      push [.output inQuotes script] (cs.drop (script.length + 1))
    else if c = '\\' then
      match cs with
      | '\n' :: rest => push [] rest
      | d :: rest =>
        if inQuotes && !isEscapable d then push [.text true ['\\', d]] rest
        else push [.text true [d]] rest
      | [] => push [.text true ['\\']] []
    else if inQuotes then
      if c = '"' then some ([], cs) else push [.text true [c]] cs
    else if c = '\'' then
      let text := cs.takeWhile (· ≠ '\'')
      match cs.drop text.length with
      | [] => none
      | _ :: rest => push [.text true text] rest
    else if c = '"' then do
      let (inner, rest) ← readPieces fuel .quotes cs
      push (.text true [] :: inner) rest
    else if isPlain c then push [.text false (c :: cs.takeWhile isPlain)] (cs.dropWhile isPlain)
    else if place = .edit then push [.text false [c]] cs
    else some ([], c :: cs)

def readWord (cs : List Char) : Option (Word × List Char) :=
  readPieces (cs.length + 1) .«open» cs

def readEditWord (cs : List Char) : Word :=
  match readPieces (cs.length + 1) .edit cs with
  | some (word, _) => word
  | none => [.text false cs]

end Literate.Shell
