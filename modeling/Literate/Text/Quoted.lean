import Literate.Text.Printable

/-!
# Quoted text

A text shown inside a message is put between double quotes, with an escape for each character that
would be mistaken for something else: the quote and the backslash, the controls that have a letter of
their own, and by number every other character that is not printable. A single quote needs none.
-/

namespace Literate.Text.Quoted

def hexDigits (n : Nat) : String :=
  String.ofList (Nat.toDigits 16 n)

/-- The form of one character between the quotes. -/
def escape (c : Char) : String :=
  if c = '"' then "\\\""
  else if c = '\\' then "\\\\"
  else if c = '\n' then "\\n"
  else if c = '\r' then "\\r"
  else if c = '\t' then "\\t"
  else if c = '\x00' then "\\0"
  else if isPrintable c then c.toString
  else "\\u\x7b" ++ hexDigits c.toNat ++ "\x7d"

def quote (s : String) : String :=
  "\"" ++ String.join (s.toList.map escape) ++ "\""

end Literate.Text.Quoted
