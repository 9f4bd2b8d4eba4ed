import Literate.Text.Utf8

/-!
# Formatted output

`printf` writes its arguments as a format says: text as it stands, escapes, and directives that take an
argument each. The format is used again as long as arguments are left.
-/

namespace Literate.Shell.Format

/-- The byte that a letter after a backslash stands for. -/
def escapedByte? : Char → Option UInt8
  | 'a' => some 7
  | 'b' => some 8
  | 'f' => some 12
  | 'n' => some 10
  | 'r' => some 13
  | 't' => some 9
  | 'v' => some 11
  | '\\' => some 92
  | _ => none

def isOctal (c : Char) : Bool := '0' ≤ c && c ≤ '7'

def octalValue (cs : List Char) : UInt8 :=
  UInt8.ofNat (cs.foldl (fun n c => 8 * n + (c.toNat - '0'.toNat)) 0)

/-- The bytes of an escape after its backslash, and what follows it. A backslash that begins no escape
stands for itself. -/
def readEscape (cs : List Char) : List UInt8 × List Char :=
  let digits := (cs.take 3).takeWhile isOctal
  if !digits.isEmpty then ([octalValue digits], cs.drop digits.length)
  else match cs with
    | [] => ([92], [])
    | c :: rest =>
      match escapedByte? c with
      | some b => ([b], rest)
      | none => (92 :: String.utf8EncodeChar c, rest)

/-- A text with its escapes resolved, in which an octal number may begin with a further zero; whether
an escape asks to stop there. -/
def unescape : Nat → List Char → List UInt8 × Bool
  | 0, _ => ([], false)
  | _ + 1, [] => ([], false)
  | _ + 1, '\\' :: 'c' :: _ => ([], true)
  | fuel + 1, '\\' :: '0' :: cs =>
    let digits := (cs.take 3).takeWhile isOctal
    let (bytes, stop) := unescape fuel (cs.drop digits.length)
    (octalValue digits :: bytes, stop)
  | fuel + 1, '\\' :: cs =>
    let (escape, rest) := readEscape cs
    let (bytes, stop) := unescape fuel rest
    (escape ++ bytes, stop)
  | fuel + 1, c :: cs =>
    let (bytes, stop) := unescape fuel cs
    (String.utf8EncodeChar c ++ bytes, stop)

/-- How a directive sets its argument. -/
structure Layout where
  left : Bool
  zero : Bool
  width : Nat
  precision : Option Nat

def Layout.pad (layout : Layout) (fill : UInt8) (bytes : List UInt8) : List UInt8 :=
  let missing := List.replicate (layout.width - bytes.length) fill
  if layout.left then bytes ++ missing.map fun _ => 32 else missing ++ bytes

/-- The number that an argument writes, zero if it writes none. -/
def numberOf (arg : List UInt8) : Int :=
  match Text.Utf8.decodeLossy arg with
  | '-' :: cs => -((String.ofList cs).toNat?.getD 0 : Int)
  | '+' :: cs => (String.ofList cs).toNat?.getD 0
  | cs => (String.ofList cs).toNat?.getD 0

def asciiBytes (s : String) : List UInt8 :=
  s.toUTF8.toList

def Layout.number (layout : Layout) (base : Nat) (n : Int) : List UInt8 :=
  let sign := if n < 0 then [45] else []
  let digits := asciiBytes (String.ofList (Nat.toDigits base n.natAbs))
  if layout.zero && !layout.left then
    sign ++ (Layout.pad { layout with width := layout.width - sign.length } 48 digits)
  else layout.pad 32 (sign ++ digits)

/-- A directive after its percent sign: its layout, its letter, and what follows. -/
def readDirective (cs : List Char) : Option (Layout × Char × List Char) :=
  let flags := cs.takeWhile fun c => c = '-' || c = '0' || c = '+' || c = ' '
  let cs := cs.drop flags.length
  let width := cs.takeWhile Char.isDigit
  let cs := cs.drop width.length
  let (precision, cs) := match cs with
    | '.' :: cs =>
      (some ((String.ofList (cs.takeWhile Char.isDigit)).toNat?.getD 0), cs.dropWhile Char.isDigit)
    | cs => (none, cs)
  match cs with
  | [] => none
  | c :: rest =>
    some (⟨flags.contains '-', flags.contains '0', (String.ofList width).toNat?.getD 0, precision⟩, c,
      rest)

/-- What a directive writes for an argument, none if there is no such directive. -/
def directive? (layout : Layout) (letter : Char) (arg : List UInt8) : Option (List UInt8) :=
  match letter with
  | 's' => some (layout.pad 32 (match layout.precision with
    | some n => arg.take n
    | none => arg))
  | 'b' => some (layout.pad 32 (unescape (arg.length + 1) (Text.Utf8.decodeLossy arg)).1)
  | 'c' => some (layout.pad 32 (arg.take 1))
  | 'd' | 'i' | 'u' => some (layout.number 10 (numberOf arg))
  | 'o' => some (layout.number 8 (numberOf arg))
  | 'x' => some (layout.number 16 (numberOf arg))
  | _ => none

/-- Writes arguments by a format once; gives the output and the arguments that are left. -/
def once : Nat → List Char → List (List UInt8) → List UInt8 × List (List UInt8)
  | 0, _, args => ([], args)
  | _ + 1, [], args => ([], args)
  | fuel + 1, '\\' :: cs, args =>
    let (escape, rest) := readEscape cs
    let (bytes, args) := once fuel rest args
    (escape ++ bytes, args)
  | fuel + 1, '%' :: '%' :: cs, args =>
    let (bytes, args) := once fuel cs args
    (37 :: bytes, args)
  | fuel + 1, '%' :: cs, args =>
    match readDirective cs with
    | none => ([], args)
    | some (layout, letter, rest) =>
      match directive? layout letter (args.headD []) with
      | none => ([], [])
      | some written =>
        let (bytes, args) := once fuel rest args.tail
        (written ++ bytes, args)
  | fuel + 1, c :: cs, args =>
    let (bytes, args) := once fuel cs args
    (String.utf8EncodeChar c ++ bytes, args)

/-- Writes arguments by a format, which is used again while it takes some. -/
def print : Nat → List Char → List (List UInt8) → List UInt8
  | 0, _, _ => []
  | fuel + 1, format, args =>
    let (bytes, left) := once (format.length + 1) format args
    if left.isEmpty || left.length = args.length then bytes else bytes ++ print fuel format left

end Literate.Shell.Format
