import Literate.Shell.Word

/-!
# Arithmetic

The expression in `$((…))` is made of whole numbers, variables and the operators that C has for them.
`evaluate` reads it and gives its value.
-/

namespace Literate.Shell.Arithmetic

/-- An operator with two operands: its text, how strongly it binds, and what it gives; nothing if a
divisor is zero. -/
structure Binary where
  text : String
  strength : Nat
  apply : Int → Int → Option Int

def truth (b : Bool) : Int := if b then 1 else 0

/-- The operators, a longer one before those that it begins with. -/
def binaries : List Binary :=
  [⟨"||", 1, fun a b => some (truth (a ≠ 0 || b ≠ 0))⟩,
    ⟨"&&", 2, fun a b => some (truth (a ≠ 0 && b ≠ 0))⟩,
    ⟨"==", 3, fun a b => some (truth (a = b))⟩,
    ⟨"!=", 3, fun a b => some (truth (a ≠ b))⟩,
    ⟨"<=", 4, fun a b => some (truth (a ≤ b))⟩,
    ⟨">=", 4, fun a b => some (truth (b ≤ a))⟩,
    ⟨"<", 4, fun a b => some (truth (a < b))⟩,
    ⟨">", 4, fun a b => some (truth (b < a))⟩,
    ⟨"+", 5, fun a b => some (a + b)⟩,
    ⟨"-", 5, fun a b => some (a - b)⟩,
    ⟨"*", 6, fun a b => some (a * b)⟩,
    ⟨"/", 6, fun a b => if b = 0 then none else some (a.tdiv b)⟩,
    ⟨"%", 6, fun a b => if b = 0 then none else some (a.tmod b)⟩]

def skipBlanks (cs : List Char) : List Char :=
  cs.dropWhile fun c => c = ' ' || c = '\t' || c = '\n'

/-- The value of a variable in an expression: of the number that it holds, or zero. -/
def valueOf (text : List Char) : Int :=
  match skipBlanks text with
  | '-' :: cs => -((String.ofList cs).toNat?.getD 0 : Int)
  | cs => (String.ofList cs).toNat?.getD 0

def readBinary (cs : List Char) : Option (Binary × List Char) :=
  (binaries.find? fun o => o.text.toList.isPrefixOf cs).map fun o => (o, cs.drop o.text.length)

mutual

/-- Reads an operand: a number, a variable, or an expression in parentheses, perhaps with a sign. -/
def readOperand (lookup : List Char → List Char) : Nat → List Char → Option (Int × List Char)
  | 0, _ => none
  | fuel + 1, cs =>
    match skipBlanks cs with
    | '-' :: cs => (readOperand lookup fuel cs).map fun (n, rest) => (-n, rest)
    | '+' :: cs => readOperand lookup fuel cs
    | '!' :: cs => (readOperand lookup fuel cs).map fun (n, rest) => (truth (n = 0), rest)
    | '(' :: cs => do
      let (first, rest) ← readOperand lookup fuel cs
      let (value, rest) ← readRest lookup fuel 0 first rest
      match skipBlanks rest with
      | ')' :: rest => some (value, rest)
      | _ => none
    | c :: cs =>
      if c.isDigit then
        some ((String.ofList (c :: cs.takeWhile Char.isDigit)).toNat?.getD 0, cs.dropWhile Char.isDigit)
      else if isNameStart c then
        some (valueOf (lookup (c :: cs.takeWhile isNameChar)), cs.dropWhile isNameChar)
      else none
    | [] => none

/-- Goes on reading operators that bind more strongly than `strength`, behind an operand. -/
def readRest (lookup : List Char → List Char) :
    Nat → Nat → Int → List Char → Option (Int × List Char)
  | 0, _, _, _ => none
  | fuel + 1, strength, left, cs =>
    match readBinary (skipBlanks cs) with
    | none => some (left, cs)
    | some (o, rest) =>
      if o.strength ≤ strength then some (left, cs)
      else do
        let (right, rest) ← readOperand lookup fuel rest
        let (right, rest) ← readRest lookup fuel o.strength right rest
        readRest lookup fuel strength (← o.apply left right) rest

end

def evaluate (lookup : List Char → List Char) (expression : List Char) : Option Int := do
  let fuel := 2 * expression.length + 2
  let (first, rest) ← readOperand lookup fuel expression
  let (value, rest) ← readRest lookup fuel 0 first rest
  if (skipBlanks rest).isEmpty then some value else none

end Literate.Shell.Arithmetic
