/-!
# Sets of characters by range

A property that a standard gives to characters is a few hundred ranges of numbers. `Ranges.ofText`
reads them from a table of hexadecimal words, `41-5a` for a range and `df` for one character;
`Ranges.contains` asks whether a character is in one of them.
-/

namespace Literate.Text

def hexValue? (c : Char) : Option Nat :=
  if '0' ≤ c ∧ c ≤ '9' then some (c.toNat - '0'.toNat)
  else if 'a' ≤ c ∧ c ≤ 'f' then some (c.toNat - 'a'.toNat + 10)
  else if 'A' ≤ c ∧ c ≤ 'F' then some (c.toNat - 'A'.toNat + 10)
  else none

/-- The number that a run of hexadecimal digits writes; any other character counts as nothing. -/
def hexNumber (cs : List Char) : Nat :=
  cs.foldl (fun n c => match hexValue? c with | some d => 16 * n + d | none => n) 0

/-- The words of a table: runs of characters other than the space and the line feed. -/
def tableWords (text : String) : List (List Char) :=
  (text.toList.splitBy fun a b => !(a = ' ' || a = '\n') && !(b = ' ' || b = '\n')).filter
    fun word => word ≠ [' '] && word ≠ ['\n']

/-- A set of characters, as the first and last number of each of its ranges. -/
structure Ranges where
  bounds : List (Nat × Nat)

namespace Ranges

/-- Reads a table of words `first-last` and `single`. -/
def ofText (text : String) : Ranges where
  bounds := (tableWords text).map fun word =>
    let first := word.takeWhile (· ≠ '-')
    match word.dropWhile (· ≠ '-') with
    | _ :: last => (hexNumber first, hexNumber last)
    | [] => (hexNumber first, hexNumber first)

/-- Whether a character lies in one of the ranges. -/
def contains (ranges : Ranges) (c : Char) : Bool :=
  ranges.bounds.any fun (first, last) => first ≤ c.toNat && c.toNat ≤ last

end Ranges

end Literate.Text
