import Literate.Decimal.Shortest

/-!
# Values of a TOML document

A table is a list of entries with distinct keys in increasing order. Dates and times keep their fields;
`Datetime.show` writes them in the one form that TOML reads back, with `T` between date and time and no
zeros at the end of a fraction.
-/

namespace Literate.Toml

structure Date where
  year : Nat
  month : Nat
  day : Nat

structure Time where
  hour : Nat
  minute : Nat
  second : Nat
  nanosecond : Nat

/-- The distance of a local time from universal time. -/
inductive Offset where
  | z
  | minutes (minutes : Int)

/-- A date, a time, or both; only both together have an offset. -/
structure Datetime where
  date : Option Date
  time : Option Time
  offset : Option Offset

def padded (width n : Nat) : String :=
  let digits := Nat.toDigits 10 n
  String.ofList (List.replicate (width - digits.length) '0' ++ digits)

protected def Date.show (d : Date) : String :=
  s!"{padded 4 d.year}-{padded 2 d.month}-{padded 2 d.day}"

protected def Time.show (t : Time) : String :=
  let fraction := (padded 9 t.nanosecond).toList.reverse.dropWhile (· = '0') |>.reverse
  s!"{padded 2 t.hour}:{padded 2 t.minute}:{padded 2 t.second}" ++
    if t.nanosecond = 0 then "" else "." ++ String.ofList fraction

protected def Offset.show : Offset → String
  | .z => "Z"
  | .minutes n =>
    (if n < 0 then "-" else "+") ++ padded 2 (n.natAbs / 60) ++ ":" ++ padded 2 (n.natAbs % 60)

protected def Datetime.show (d : Datetime) : String :=
  (d.date.map Date.show).getD "" ++
    (if d.date.isSome && d.time.isSome then "T" else "") ++
    (d.time.map Time.show).getD "" ++
    (d.offset.map Offset.show).getD ""

inductive Value where
  | string (s : String)
  | integer (n : Int)
  | float (x : Float)
  | boolean (b : Bool)
  | datetime (d : Datetime)
  | array (items : List Value)
  | table (entries : List (String × Value))

instance : Inhabited Value := ⟨.boolean false⟩

end Literate.Toml
