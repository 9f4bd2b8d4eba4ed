/-!
# Patterns

A pattern of a shell is text in which an unquoted `*` stands for any bytes, `?` for one, and a bracket
expression for one of a set. `matches` says whether it fits a text as a whole, `cutFront` and `cutEnd`
take off what it fits at one end.
-/

namespace Literate.Shell

/-- A byte of a pattern; it has a special meaning only if it is `active`. -/
structure PatternByte where
  byte : UInt8
  active : Bool
deriving DecidableEq

namespace Pattern

def isActive (p : PatternByte) (c : Char) : Bool :=
  p.active && p.byte.toNat = c.toNat

/-- What a bracket expression says of a byte, and what follows the expression; none if it has no end.
A closing bracket in first place is a member. -/
def readSet (b : UInt8) (first found : Bool) : List PatternByte → Option (Bool × List PatternByte)
  | [] => none
  | lo :: ⟨0x2D, true⟩ :: hi :: ps =>
    if isActive lo ']' && !first then some (found, ⟨0x2D, true⟩ :: hi :: ps)
    else if isActive hi ']' then some (found || b = lo.byte || b = 0x2D, ps)
    else readSet b false (found || (lo.byte ≤ b && b ≤ hi.byte)) ps
  | p :: ps =>
    if isActive p ']' && !first then some (found, ps) else readSet b false (found || b = p.byte) ps

/-- Whether a byte belongs to the set behind an opening bracket, and what follows the set. -/
def inSet (b : UInt8) : List PatternByte → Option (Bool × List PatternByte)
  | p :: ps =>
    if isActive p '!' || isActive p '^' then
      (readSet b true false ps).map fun (found, rest) => (!found, rest)
    else readSet b true false (p :: ps)
  | [] => none

/-- Whether a pattern fits a whole text. `fuel` bounds the number of steps. -/
def fits : Nat → List PatternByte → List UInt8 → Bool
  | 0, _, _ => false
  | _ + 1, [], text => text.isEmpty
  | fuel + 1, p :: ps, text =>
    if isActive p '*' then
      fits fuel ps text || match text with
        | [] => false
        | _ :: rest => fits fuel (p :: ps) rest
    else match text with
      | [] => false
      | b :: rest =>
        if isActive p '?' then fits fuel ps rest
        else if isActive p '[' then
          match inSet b ps with
          | some (found, ps) => found && fits fuel ps rest
          | none => b = p.byte && fits fuel ps rest
        else b = p.byte && fits fuel ps rest

def «matches» (pattern : List PatternByte) (text : List UInt8) : Bool :=
  fits (pattern.length + text.length + 1) pattern text

/-- The text without the part at its front that a pattern fits, the shortest such part or the longest. -/
def cutFront (longest : Bool) (pattern : List PatternByte) (text : List UInt8) : List UInt8 :=
  let lengths := List.range (text.length + 1)
  let lengths := if longest then lengths.reverse else lengths
  match lengths.find? fun n => «matches» pattern (text.take n) with
  | some n => text.drop n
  | none => text

def cutEnd (longest : Bool) (pattern : List PatternByte) (text : List UInt8) : List UInt8 :=
  let lengths := List.range (text.length + 1)
  let lengths := if longest then lengths else lengths.reverse
  match lengths.find? fun n => «matches» pattern (text.drop n) with
  | some n => text.take n
  | none => text

end Pattern

end Literate.Shell
