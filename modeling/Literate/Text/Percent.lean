import Literate.Text.Ranges
import Literate.Text.Utf8

/-!
# Percent encoding

In the destination of an image a byte may be written `%` and two hexadecimal digits. `decode` takes
such escapes out, leaving a `%` that starts none as it is; `encode` puts them in for every byte that
is not allowed to stand for itself (`isReserved`). What `encode` writes holds neither blanks, quotes,
brackets nor backticks, so that it can stand in the text of a document.
-/

namespace Literate.Text.Percent

/-- The bytes of a text after its escapes are resolved. -/
def decodeBytes : List Char → List UInt8
  | [] => []
  | '%' :: h :: l :: cs =>
    match hexValue? h, hexValue? l with
    | some hi, some lo => UInt8.ofNat (16 * hi + lo) :: decodeBytes cs
    | _, _ => String.utf8EncodeChar '%' ++ decodeBytes (h :: l :: cs)
  | c :: cs => String.utf8EncodeChar c ++ decodeBytes cs
termination_by cs => cs.length

/-- The text that the resolved bytes spell, with U+FFFD where they are not UTF-8. -/
def decode (s : String) : String :=
  String.ofList (Utf8.decodeLossy (decodeBytes s.toList))

/-- The bytes that are written as escapes: controls, bytes outside ASCII, the space and
`% " < > { }` and the backtick. -/
def isReserved (b : UInt8) : Bool :=
  b < 0x20 || 0x7F ≤ b || b = 0x20 || b = 0x25 || b = 0x22 || b = 0x3C || b = 0x3E || b = 0x60 ||
    b = 0x7B || b = 0x7D

/-- The hexadecimal digit of a number below sixteen, in upper case. -/
def upperDigit (n : Nat) : Char :=
  if n < 10 then Char.ofNat ('0'.toNat + n) else Char.ofNat ('A'.toNat + (n - 10))

def encodeByte (b : UInt8) : List Char :=
  if isReserved b then ['%', upperDigit (b.toNat / 16), upperDigit (b.toNat % 16)]
  else [Char.ofNat b.toNat]

/-- The text with an escape for each reserved byte. -/
def encode (s : String) : String :=
  String.ofList ((Utf8.encode s.toList).flatMap encodeByte)

end Literate.Text.Percent
