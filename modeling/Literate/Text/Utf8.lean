/-!
# Bytes and text

Output of another process is bytes, and a text is read from them character by character. `encode`
writes a text in UTF-8. `decodeLossy` reads any bytes at all: where they are not UTF-8, one U+FFFD
stands for each longest run of bytes that could have begun a character (`readChar`). `decode?` reads
only what `encode` can write.
-/

namespace Literate.Text.Utf8

def encode (cs : List Char) : List UInt8 :=
  cs.flatMap String.utf8EncodeChar

/-- The number of bytes in which a text is stored. -/
def byteSize : List Char → Nat
  | [] => 0
  | c :: cs => c.utf8Size + byteSize cs

/-- A byte `10xxxxxx`. -/
def isContinuation (b : UInt8) : Bool :=
  0x80 ≤ b && b ≤ 0xBF

/-- The six low bits that a continuation byte carries. -/
def continuationBits (b : UInt8) : Nat :=
  b.toNat - 0x80

/-- The bytes that may follow a first byte of three: `ED` may not lead to a surrogate, nor `E0` to a
character that fits in two bytes. -/
def isSecondOfThree (b₀ b₁ : UInt8) : Bool :=
  if b₀ = 0xE0 then 0xA0 ≤ b₁ && b₁ ≤ 0xBF
  else if b₀ = 0xED then 0x80 ≤ b₁ && b₁ ≤ 0x9F
  else isContinuation b₁

/-- The bytes that may follow a first byte of four: the character needs four bytes and is not past
U+10FFFF. -/
def isSecondOfFour (b₀ b₁ : UInt8) : Bool :=
  if b₀ = 0xF0 then 0x90 ≤ b₁ && b₁ ≤ 0xBF
  else if b₀ = 0xF4 then 0x80 ≤ b₁ && b₁ ≤ 0x8F
  else isContinuation b₁

/-- Reads a character whose first byte is `b₀`: the character, or `none` where the bytes are not
UTF-8, and how many further bytes belong to it. -/
def readChar (b₀ : UInt8) (bs : List UInt8) : Option Char × Nat :=
  if b₀ < 0x80 then (some (Char.ofNat b₀.toNat), 0)
  else if b₀ < 0xC2 then (none, 0)
  else if b₀ < 0xE0 then
    match bs with
    | b₁ :: _ =>
      if isContinuation b₁ then
        (some (Char.ofNat ((b₀.toNat - 0xC0) * 64 + continuationBits b₁)), 1)
      else (none, 0)
    | [] => (none, 0)
  else if b₀ < 0xF0 then
    match bs with
    | b₁ :: bs =>
      if isSecondOfThree b₀ b₁ then
        match bs with
        | b₂ :: _ =>
          if isContinuation b₂ then
            (some (Char.ofNat (((b₀.toNat - 0xE0) * 64 + continuationBits b₁) * 64 +
              continuationBits b₂)), 2)
          else (none, 1)
        | [] => (none, 1)
      else (none, 0)
    | [] => (none, 0)
  else if b₀ < 0xF5 then
    match bs with
    | b₁ :: bs =>
      if isSecondOfFour b₀ b₁ then
        match bs with
        | b₂ :: bs =>
          if isContinuation b₂ then
            match bs with
            | b₃ :: _ =>
              if isContinuation b₃ then
                (some (Char.ofNat ((((b₀.toNat - 0xF0) * 64 + continuationBits b₁) * 64 +
                  continuationBits b₂) * 64 + continuationBits b₃)), 3)
              else (none, 2)
            | [] => (none, 2)
          else (none, 1)
        | [] => (none, 1)
      else (none, 0)
    | [] => (none, 0)
  else (none, 0)

/-- The characters that the bytes hold, `none` for each run that is not UTF-8. -/
def readAll : List UInt8 → List (Option Char)
  | [] => []
  | b :: bs =>
    let (c, extra) := readChar b bs
    c :: readAll (bs.drop extra)
termination_by bs => bs.length
decreasing_by simp only [List.length_drop, List.length_cons]; omega

/-- Reads bytes as UTF-8, with U+FFFD for each run of bytes that is not. -/
def decodeLossy (bs : List UInt8) : List Char :=
  (readAll bs).map fun c => c.getD '\uFFFD'

/-- Reads bytes that are UTF-8. -/
def decode? (bs : List UInt8) : Option (List Char) :=
  (readAll bs).mapM id

end Literate.Text.Utf8
