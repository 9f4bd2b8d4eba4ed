/-!
# The shortest decimal of a floating-point number

A finite number is `significand * 2 ^ exponent`. The reals that round to it form an interval whose ends
belong to it exactly if the significand is even (`Interval`). `shortest` looks at the decimal grids of
one digit, two digits and so on, and answers the first grid point inside the interval, of two the nearer
one: no decimal with fewer digits reads back as the same number. `positional` writes it without an
exponent, however long that gets.
-/

namespace Literate.Decimal

/-- The numbers from `lower` to `upper`, and `middle` between them, over a common denominator. -/
structure Interval where
  lower : Nat
  middle : Nat
  upper : Nat
  denominator : Nat
  /-- Whether the two ends belong to it. -/
  closed : Bool

/-- A decimal `digits * 10 ^ exponent`. -/
structure Scientific where
  digits : Nat
  exponent : Int
deriving Inhabited

/-- The reals that round to `significand * 2 ^ exponent`. Just above a power of two the numbers below
are twice as dense as those above. -/
def intervalOf (significand : Nat) (exponent : Int) (least : Bool) : Interval :=
  let lower := 4 * significand - (if significand = Nat.pow 2 52 ∧ !least then 1 else 2)
  let scale := Nat.pow 2 (exponent - 2).toNat
  { lower := lower * scale
    middle := 4 * significand * scale
    upper := (4 * significand + 2) * scale
    denominator := Nat.pow 2 (2 - exponent).toNat
    closed := significand % 2 = 0 }

namespace Interval

def contains (i : Interval) (n : Nat) (place : Int) : Bool :=
  let value := n * Nat.pow 10 place.toNat * i.denominator
  let scale := Nat.pow 10 (-place).toNat
  if i.closed then i.lower * scale ≤ value && value ≤ i.upper * scale
  else i.lower * scale < value && value < i.upper * scale

/-- The distance of `n * 10 ^ place` from the middle, over a denominator that does not depend on `n`. -/
def distance (i : Interval) (n : Nat) (place : Int) : Nat :=
  let value := n * Nat.pow 10 place.toNat * i.denominator
  let middle := i.middle * Nat.pow 10 (-place).toNat
  (value - middle) + (middle - value)

/-- The largest `n` with `n * 10 ^ place` not above the middle. -/
def below (i : Interval) (place : Int) : Nat :=
  i.middle * Nat.pow 10 (-place).toNat / (i.denominator * Nat.pow 10 place.toNat)

/-- The grid point at `place` that lies in the interval and is nearest to the middle. -/
def pointAt? (i : Interval) (place : Int) : Option Nat :=
  let n := i.below place
  match i.contains n place, i.contains (n + 1) place with
  | true, true => some (if i.distance n place ≤ i.distance (n + 1) place then n else n + 1)
  | true, false => some n
  | false, true => some (n + 1)
  | false, false => none

/-- The number of digits before the decimal point, negative for leading zeros after it: the least
`place ≤ start` with `10 ^ place` above the middle. -/
def magnitude (i : Interval) : Nat → Int → Int
  | 0, place => place
  | steps + 1, place => if i.below (place - 1) = 0 then i.magnitude steps (place - 1) else place

/-- The first point on the grids of `count` digits and more. -/
def firstPoint (i : Interval) (top : Int) : Nat → Nat → Scientific
  | 0, count => ⟨i.below (top - count), top - count⟩
  | fuel + 1, count =>
    match i.pointAt? (top - count) with
    | some n => ⟨n, top - count⟩
    | none => i.firstPoint top fuel (count + 1)

end Interval

/-- The shortest decimal that rounds to `significand * 2 ^ exponent`. Seventeen digits always do. -/
def shortest (significand : Nat) (exponent : Int) (least : Bool) : Scientific :=
  let i := intervalOf significand exponent least
  i.firstPoint (i.magnitude 640 310) 17 1

/-- A number with a decimal point, if it needs one, and no exponent. -/
def positional (d : Scientific) : String :=
  let digits := Nat.toDigits 10 d.digits
  if 0 ≤ d.exponent then String.ofList (digits ++ List.replicate d.exponent.toNat '0')
  else
    let places := (-d.exponent).toNat
    let padded := List.replicate (places + 1 - digits.length) '0' ++ digits
    let whole := padded.take (padded.length - places)
    String.ofList (whole ++ '.' :: padded.drop (padded.length - places))

/-- The number without the zeros at its end. -/
def Scientific.trimmed : Nat → Scientific → Scientific
  | 0, d => d
  | fuel + 1, d =>
    if d.digits ≠ 0 ∧ d.digits % 10 = 0 then trimmed fuel ⟨d.digits / 10, d.exponent + 1⟩ else d

/-- The text of a floating-point number: the shortest digits in positional notation. -/
def ofFloat (x : Float) : String :=
  let bits := x.toBits.toNat
  let sign := if bits / Nat.pow 2 63 = 1 then "-" else ""
  let exponent : Nat := bits / Nat.pow 2 52 % Nat.pow 2 11
  let fraction := bits % Nat.pow 2 52
  if exponent = 2047 then
    if fraction = 0 then sign ++ "inf" else "NaN"
  else if exponent = 0 ∧ fraction = 0 then sign ++ "0"
  else
    let significand := if exponent = 0 then fraction else fraction + Nat.pow 2 52
    let power : Int := if exponent = 0 then -1074 else (exponent : Int) - 1075
    sign ++ positional ((shortest significand power (exponent ≤ 1)).trimmed 17)

end Literate.Decimal
