import Literate.Toml.Item

/-!
# Reading with alternatives

A reader takes a value from the front of a text or fails. A failure says where, and whether another
reading may be tried instead: as soon as a text has begun in a way that allows one reading only, its
failures are fatal.
-/

namespace Literate.Toml

structure Failure where
  /-- Whether no other reading is possible. -/
  fatal : Bool
  /-- The text from the place of the failure on. -/
  rest : List Char
  problem : Problem

/-- What a reader answers: mostly what it has read, and the text behind it. -/
abbrev Attempt := Except Failure

namespace Attempt

/-- A failure in front of a text, of which nothing more is known. -/
def fail {α : Type} (rest : List Char) : Attempt α :=
  .error ⟨false, rest, .none⟩

def failWith {α : Type} (rest : List Char) (cause : Cause) : Attempt α :=
  .error ⟨false, rest, { Problem.none with cause := some cause }⟩

/-- The reader of which no failure leaves another reading. -/
def cut {α : Type} (r : Attempt α) : Attempt α :=
  r.mapError fun f => { f with fatal := true }

/-- Says what a failing reader was reading, unless it is known more closely. -/
def within {α : Type} (construct : Construct) (r : Attempt α) : Attempt α :=
  r.mapError fun f =>
    { f with problem := { f.problem with construct := f.problem.construct.or (some construct) } }

/-- Says what else would have been right where a reader fails. -/
def expecting {α : Type} (expected : List Expectation) (r : Attempt α) : Attempt α :=
  r.mapError fun f =>
    { f with problem := { f.problem with expected := f.problem.expected ++ expected } }

/-- The other reading, if a reader fails and that is not fatal. -/
def orElse {α : Type} (r : Attempt α) (other : Unit → Attempt α) : Attempt α :=
  match r with
  | .ok result => .ok result
  | .error f => if f.fatal then .error f else other ()

/-- What is read if it is there; a failure that is not fatal reads nothing. -/
def optional {α : Type} (cs : List Char) (r : Attempt (α × List Char)) :
    Attempt (Option α × List Char) :=
  match r with
  | .ok (a, rest) => .ok (some a, rest)
  | .error f => if f.fatal then .error f else .ok (none, cs)

end Attempt

-- ---------------------------------------------------------------------------
-- Blanks and comments
-- ---------------------------------------------------------------------------

def isTomlBlank (c : Char) : Bool :=
  c = ' ' || c = '\t'

def dropBlanks (cs : List Char) : List Char :=
  cs.dropWhile isTomlBlank

def isCommentChar (c : Char) : Bool :=
  c = '\t' || (0x20 ≤ c.toNat && c ≠ '\x7F')

def afterNewline? : List Char → Option (List Char)
  | '\n' :: cs => some cs
  | '\r' :: '\n' :: cs => some cs
  | _ => none

def readLineEnd (cs : List Char) : Attempt (List Char) :=
  match cs with
  | [] => .ok []
  | _ => match afterNewline? cs with
    | some rest => .ok rest
    | none => .fail cs

/-- The text without a comment at its front. -/
def dropComment : List Char → List Char
  | '#' :: cs => cs.dropWhile isCommentChar
  | cs => cs

def readTrailing (cs : List Char) : Attempt (List Char) :=
  readLineEnd (dropComment (dropBlanks cs))

/-- Reads blanks, comments and line ends. A comment has to end in a line end. -/
def readFiller : Nat → List Char → Attempt (List Char)
  | 0, cs => .ok cs
  | fuel + 1, cs =>
    let rest := dropBlanks cs
    match rest with
    | '#' :: _ =>
      match afterNewline? (dropComment rest) with
      | some below => readFiller fuel below
      | none => .fail (dropComment rest)
    | c :: _ =>
      if c = '\n' || c = '\r' then
        match afterNewline? rest with
        | some below => readFiller fuel below
        | none => .fail rest
      else .ok rest
    | [] => .ok rest

-- ---------------------------------------------------------------------------
-- Strings
-- ---------------------------------------------------------------------------

/-- A character other than control characters; the tab is allowed. -/
def isVisible (c : Char) : Bool :=
  isCommentChar c

def readCode (construct : Construct) (size : Nat) (cs : List Char) : Attempt (Char × List Char) :=
  let digits := (cs.take size).takeWhile fun c => (Text.hexValue? c).isSome
  let n := Text.hexNumber digits
  Attempt.cut <| Attempt.within construct <|
    if digits.length ≠ size then .fail cs
    else if n.isValidChar then .ok (Char.ofNat n, cs.drop size)
    else .failWith cs .outOfRange

def readEscape (cs : List Char) : Attempt (Char × List Char) :=
  match cs with
  | [] => .fail cs
  | c :: rest =>
    if c = 'b' then .ok ('\x08', rest)
    else if c = 'f' then .ok ('\x0C', rest)
    else if c = 'n' then .ok ('\n', rest)
    else if c = 'r' then .ok ('\r', rest)
    else if c = 't' then .ok ('\t', rest)
    else if c = 'u' then readCode .shortCode 4 rest
    else if c = 'U' then readCode .longCode 8 rest
    else if c = '\\' then .ok ('\\', rest)
    else if c = '"' then .ok ('"', rest)
    else
      Attempt.cut <| Attempt.within .escapeSequence <|
        Attempt.expecting (["b", "f", "n", "r", "t", "u", "U", "\\", "\""].map .text) <|
          .fail (if c.toNat < 0x80 then rest else cs)

/-- Reads a basic string behind its opening quote. `read` holds its characters so far, last one first. -/
def readBasic : Nat → List Char → List Char →
    Attempt (String × List Char)
  | 0, _, cs => .fail cs
  | fuel + 1, read, cs => do
    let unclosed : Attempt (String × List Char) := Attempt.cut (Attempt.within .basicString (.fail cs))
    match cs with
    | [] => unclosed
    | c :: rest =>
      if c = '"' then return (String.ofList read.reverse, rest)
      else if c = '\\' then
        if rest.isEmpty then unclosed
        else
          let (d, rest) ← readEscape rest
          readBasic fuel (d :: read) rest
      else if isVisible c then readBasic fuel (c :: read) rest
      else unclosed

def readLiteral (cs : List Char) : Attempt (String × List Char) :=
  let body := cs.takeWhile fun c => isVisible c && c ≠ '\''
  match cs.drop body.length with
  | '\'' :: rest => .ok (String.ofList body, rest)
  | rest => Attempt.cut (Attempt.within .literalString (.fail rest))

/-- The text behind a backslash at the end of a line: all blanks and line ends are taken off. -/
def afterEscapedNewline? (cs : List Char) : Option (List Char) :=
  (afterNewline? (dropBlanks cs)).map dropBlankLines
where
  dropBlankLines : List Char → List Char
    | '\r' :: '\n' :: cs => dropBlankLines cs
    | c :: cs => if c = '\n' || isTomlBlank c then dropBlankLines cs else c :: cs
    | [] => []

/-- Reads a string of several lines behind its opening quotes. Up to two quotes may stand in it, also
in front of those that close it. In a basic string backslashes escape. -/
def readMultiline (quote : Char) (construct : Construct) : Nat → List Char → List Char →
    Attempt (String × List Char)
  | 0, _, cs => .fail cs
  | fuel + 1, read, cs => do
    let unclosed : Attempt (String × List Char) := Attempt.cut (Attempt.within construct (.fail cs))
    match cs with
    | [] => unclosed
    | c :: rest =>
      if c = quote then
        let size := (cs.takeWhile (· = quote)).length
        if 3 ≤ size then
          let kept := min 2 (size - 3)
          return (String.ofList (List.replicate kept quote ++ read).reverse, cs.drop (kept + 3))
        else
          match cs.drop size with
          | [] => unclosed
          | next :: _ =>
            if isVisible next || (afterNewline? (cs.drop size)).isSome then
              readMultiline quote construct fuel (List.replicate size quote ++ read) (cs.drop size)
            else unclosed
      else if c = '\\' && quote = '"' then
        match afterEscapedNewline? rest with
        | some below => readMultiline quote construct fuel read below
        | none =>
          if rest.isEmpty then unclosed
          else
            let (d, rest) ← Attempt.within construct (readEscape rest)
            readMultiline quote construct fuel (d :: read) rest
      else
        match afterNewline? cs with
        | some below => readMultiline quote construct fuel ('\n' :: read) below
        | none =>
          if isVisible c then readMultiline quote construct fuel (c :: read) rest else unclosed

def readString (cs : List Char) : Attempt (String × List Char) :=
  let fuel := cs.length + 1
  let body (rest : List Char) : List Char := (afterNewline? rest).getD rest
  match cs with
  | '"' :: '"' :: '"' :: rest => readMultiline '"' .multilineBasicString fuel [] (body rest)
  | '\'' :: '\'' :: '\'' :: rest => readMultiline '\'' .multilineLiteralString fuel [] (body rest)
  | '"' :: rest => readBasic fuel [] rest
  | '\'' :: rest => readLiteral rest
  | _ => .fail cs

-- ---------------------------------------------------------------------------
-- Keys
-- ---------------------------------------------------------------------------

def readKeyPart (cs : List Char) : Attempt (String × List Char) :=
  match cs with
  | '"' :: rest => readBasic (rest.length + 1) [] rest
  | '\'' :: rest => readLiteral rest
  | _ =>
    let name := cs.takeWhile isBareKeyChar
    if name.isEmpty then .fail cs else .ok (String.ofList name, cs.drop name.length)

/-- The place of what stands in front of `rest` and begins with `cs`, in a text of `size` bytes. -/
def spanOf (size : Nat) (cs rest : List Char) : Span :=
  ⟨size - Text.Utf8.byteSize cs, size - Text.Utf8.byteSize rest⟩

/-- Reads the parts of a key, with blanks around each and dots between them. A dot with no part behind
it is left. -/
def readKeyParts (size : Nat) : Nat → List Char →
    Attempt (List Key × List Char)
  | 0, cs => .fail cs
  | fuel + 1, cs => do
    let start := dropBlanks cs
    let (name, rest) ← readKeyPart start
    let key : Key := ⟨name, spanOf size start rest⟩
    let rest := dropBlanks rest
    match rest with
    | '.' :: more =>
      let (keys, rest) ← Attempt.optional rest (readKeyParts size fuel more)
      return (key :: keys.getD [], rest)
    | _ => return ([key], rest)

/-- How deep arrays and tables in braces nest, and how many parts a key has, stays below this. -/
def depthLimit : Nat := 80

def readKey (size : Nat) (cs : List Char) : Attempt (List Key × List Char) := do
  let (keys, rest) ← Attempt.within .key (readKeyParts size (cs.length + 1) cs)
  if depthLimit ≤ keys.length then Attempt.failWith cs .tooDeep else return (keys, rest)

-- ---------------------------------------------------------------------------
-- Numbers
-- ---------------------------------------------------------------------------

/-- Reads further digits, each of which an underscore may stand before. -/
def readMoreDigits (isDigit : Char → Bool) : List Char →
    Attempt (List Char × List Char)
  | '_' :: c :: cs =>
    if isDigit c then do
      let (digits, rest) ← readMoreDigits isDigit cs
      return (c :: digits, rest)
    else Attempt.cut (Attempt.expecting [.digit] (.fail (c :: cs)))
  | '_' :: [] => Attempt.cut (Attempt.expecting [.digit] (.fail []))
  | c :: cs =>
    if isDigit c then do
      let (digits, rest) ← readMoreDigits isDigit cs
      return (c :: digits, rest)
    else .ok ([], c :: cs)
  | [] => .ok ([], [])

def readDigits (isDigit : Char → Bool) (cs : List Char) : Attempt (List Char × List Char) :=
  match cs with
  | [] => .fail cs
  | c :: rest =>
    if isDigit c then do
      let (digits, rest) ← readMoreDigits isDigit rest
      return (c :: digits, rest)
    else .fail cs

/-- Reads a sign, if there is one: whether it is a minus. -/
def readSign (cs : List Char) : Bool × List Char :=
  match cs with
  | '-' :: rest => (true, rest)
  | '+' :: rest => (false, rest)
  | _ => (false, cs)

/-- Reads a decimal integer, without a leading zero: whether it has a minus, and its digits. -/
def readDecimal (cs : List Char) : Attempt ((Bool × List Char) × List Char) :=
  Attempt.within .integer <|
    let (minus, rest) := readSign cs
    match rest with
    | '0' :: rest => .ok ((minus, ['0']), rest)
    | _ => do
      let (digits, rest) ← readDigits Char.isDigit rest
      return ((minus, digits), rest)

def minInteger : Int := -9223372036854775808
def maxInteger : Int := 9223372036854775807

/-- An integer that fits into 64 bits; `cs` is the text that it was read from. -/
def checkInteger (cs : List Char) (n : Int) (rest : List Char) : Attempt (Int × List Char) :=
  if n < minInteger then Attempt.cut (.failWith cs .tooSmall)
  else if maxInteger < n then Attempt.cut (.failWith cs .tooLarge)
  else .ok (n, rest)

def numberIn (base : Nat) (digits : List Char) : Nat :=
  digits.foldl (fun n c => base * n + (Text.hexValue? c).getD 0) 0

def readInteger (cs : List Char) : Attempt (Int × List Char) :=
  let radix (construct : Construct) (base : Nat) (rest : List Char) : Attempt (Int × List Char) := do
    let (digits, after) ← Attempt.cut <| Attempt.within construct <|
      readDigits (fun c => (Text.hexValue? c).any (· < base)) rest
    checkInteger cs (numberIn base digits) after
  match cs with
  | '0' :: 'x' :: rest => radix .hexadecimal 16 rest
  | '0' :: 'o' :: rest => radix .octal 8 rest
  | '0' :: 'b' :: rest => radix .binary 2 rest
  | _ => do
    let ((minus, digits), rest) ← readDecimal cs
    let n : Int := numberIn 10 digits
    checkInteger cs (if minus then -n else n) rest

/-- The number `digits · 10 ^ exponent`. -/
def decimalFloat (minus : Bool) (digits : List Char) (exponent : Int) : Float :=
  let n := numberIn 10 digits
  let top := digits.length + exponent
  let x : Float :=
    if n = 0 then 0.0
    else if 400 < top then 1.0 / 0.0
    else if top < -400 then 0.0
    else Float.ofScientific n (exponent < 0) exponent.natAbs
  if minus then -x else x

def readExponent (cs : List Char) : Attempt (Int × List Char) :=
  match cs with
  | c :: rest =>
    if c = 'e' || c = 'E' then do
      let (minus, rest) := readSign rest
      let (digits, rest) ← Attempt.cut (readDigits Char.isDigit rest)
      let n : Int := numberIn 10 digits
      return (if minus then -n else n, rest)
    else .fail cs
  | [] => .fail cs

/-- Reads a number with a fraction or an exponent, or a name of one. -/
def readFloat (cs : List Char) : Attempt (Float × List Char) :=
  Attempt.within .float <|
    Attempt.orElse
      (do
        let ((minus, whole), rest) ← readDecimal cs
        let (fraction, rest) ← match rest with
          | '.' :: rest => Attempt.cut (Attempt.expecting [.digit] (readDigits Char.isDigit rest))
          | _ => .ok ([], rest)
        let (exponent, rest) ←
          if fraction.isEmpty then do
            let (n, rest) ← readExponent rest
            pure (some n, rest)
          else Attempt.optional rest (readExponent rest)
        let x := decimalFloat minus (whole ++ fraction) (exponent.getD 0 - fraction.length)
        if x == 1.0 / 0.0 then Attempt.cut (.fail cs) else return (x, rest))
      fun _ =>
        let (minus, rest) := readSign cs
        match rest with
        | 'i' :: 'n' :: 'f' :: rest => .ok (if minus then -(1.0 / 0.0) else 1.0 / 0.0, rest)
        | 'n' :: 'a' :: 'n' :: rest => .ok (0.0 / 0.0, rest)
        | _ => .fail rest

-- ---------------------------------------------------------------------------
-- Dates and times
-- ---------------------------------------------------------------------------

/-- Reads a number of exactly `size` digits between two bounds. -/
def readField (size low high : Nat) (cs : List Char) : Attempt (Nat × List Char) :=
  let digits := (cs.take size).takeWhile Char.isDigit
  let n := numberIn 10 digits
  if digits.length ≠ size then .fail cs
  else if low ≤ n && n ≤ high then .ok (n, cs.drop size)
  else .failWith cs .outOfRange

def readMark (c : Char) (cs : List Char) : Attempt (List Char) :=
  if cs.head? = some c then .ok (cs.drop 1) else .fail cs

def daysIn (year month : Nat) : Nat :=
  if month = 2 then
    if year % 4 = 0 && (year % 100 ≠ 0 || year % 400 = 0) then 29 else 28
  else if month = 4 || month = 6 || month = 9 || month = 11 then 30
  else 31

def readDate (cs : List Char) : Attempt (Date × List Char) := do
  let (year, rest) ← readField 4 0 9999 cs
  let rest ← readMark '-' rest
  Attempt.cut do
    let (month, rest) ← readField 2 1 12 rest
    let dayText ← readMark '-' rest
    let (day, rest) ← readField 2 1 31 dayText
    if daysIn year month < day then .failWith dayText .outOfRange
    else return (⟨year, month, day⟩, rest)

/-- Reads the fraction of a second, in billionths; further digits are passed over. -/
def readFraction (cs : List Char) : Attempt (Nat × List Char) :=
  match cs with
  | '.' :: rest =>
    let digits := rest.takeWhile Char.isDigit
    if digits.isEmpty then .fail rest
    else
      let kept := digits.take 9
      .ok (numberIn 10 kept * Nat.pow 10 (9 - kept.length), rest.drop digits.length)
  | _ => .fail cs

def readTime (cs : List Char) : Attempt (Time × List Char) := do
  let (hour, rest) ← readField 2 0 23 cs
  let rest ← readMark ':' rest
  Attempt.cut do
    let (minute, rest) ← readField 2 0 59 rest
    let rest ← readMark ':' rest
    let (second, rest) ← readField 2 0 60 rest
    let (nanosecond, rest) ← Attempt.optional rest (readFraction rest)
    return (⟨hour, minute, second, nanosecond.getD 0⟩, rest)

def readOffset (cs : List Char) : Attempt (Offset × List Char) :=
  Attempt.within .offset <|
    match cs with
    | c :: rest =>
      if c = 'Z' || c = 'z' then .ok (.z, rest)
      else if c = '+' || c = '-' then
        Attempt.cut do
          let (hours, rest) ← readField 2 0 23 rest
          let rest ← readMark ':' rest
          let (minutes, rest) ← readField 2 0 59 rest
          let n : Int := hours * 60 + minutes
          return (.minutes (if c = '-' then -n else n), rest)
      else .fail cs
    | [] => .fail cs

/-- Reads what may stand behind a date: a time, and an offset if there is one. -/
def readDayTime (cs : List Char) : Attempt ((Time × Option Offset) × List Char) :=
  match cs with
  | c :: rest =>
    if c = 'T' || c = 't' || c = ' ' then do
      let (time, rest) ← readTime rest
      let (offset, rest) ← Attempt.optional rest (readOffset rest)
      return ((time, offset), rest)
    else .fail cs
  | [] => .fail cs

def readDatetime (cs : List Char) : Attempt (Datetime × List Char) :=
  Attempt.orElse
    (Attempt.within .datetime do
      let (date, rest) ← readDate cs
      let (time, rest) ← Attempt.optional rest (readDayTime rest)
      return (⟨some date, time.map (·.1), time.bind (·.2)⟩, rest))
    fun _ => Attempt.within .time do
      let (time, rest) ← readTime cs
      return (⟨none, some time, none⟩, rest)

end Literate.Toml
