import Literate.Proofs.Text.Utf8

/-!
# Places counted in bytes

A scan that counts bytes may cut a text only where a character begins, or at its end. `cutAt?` cuts at any
byte and has no answer elsewhere. A place where a cut is possible stays one when the scan moves on by the
bytes of what it has read (`from?_add`), and the byte that stands at such a place is the first of a
character, so an ASCII character can be told by it (`head?_encode_eq_iff`).
-/

namespace Literate.Text.Utf8

-- ---------------------------------------------------------------------------
-- Cuts
-- ---------------------------------------------------------------------------

/-- What stands before byte `n` of a text and what stands from it on; no answer if the byte is inside a
character, or past the end. -/
def cutAt? : Nat → List Char → Option (List Char × List Char)
  | 0, cs => some ([], cs)
  | _ + 1, [] => none
  | n + 1, c :: cs =>
    if c.utf8Size ≤ n + 1 then
      (cutAt? (n + 1 - c.utf8Size) cs).map fun (front, back) => (c :: front, back)
    else none

/-- The text from a byte on. -/
def from? (n : Nat) (cs : List Char) : Option (List Char) :=
  (cutAt? n cs).map Prod.snd

/-- The text from byte `first` up to byte `last`. -/
def slice? (first last : Nat) (cs : List Char) : Option (List Char) :=
  if last < first then none
  else (from? first cs).bind fun rest => (cutAt? (last - first) rest).map Prod.fst

/-- The text with another one in the place of its bytes from `first` up to `last`. -/
def replace? (first last : Nat) (value cs : List Char) : Option (List Char) :=
  (cutAt? first cs).bind fun (front, _) => (from? last cs).map fun back => front ++ value ++ back

/-- The byte at which a character stands for the first time. -/
def offsetOf? (c : Char) (cs : List Char) : Option Nat :=
  if c ∈ cs then some (byteSize (cs.takeWhile (· ≠ c))) else none

theorem byteSize_append (cs ds : List Char) : byteSize (cs ++ ds) = byteSize cs + byteSize ds := by
  induction cs with
  | nil => exact (Nat.zero_add _).symm
  | cons c cs ih => rw [List.cons_append, byteSize, byteSize, ih, Nat.add_assoc]

theorem length_encode (cs : List Char) : (encode cs).length = byteSize cs := by
  induction cs with
  | nil => rfl
  | cons c cs ih => rw [encode_cons, List.length_append, String.length_utf8EncodeChar, ih, byteSize]

theorem utf8ByteSize_ofList (cs : List Char) : (String.ofList cs).utf8ByteSize = (encode cs).length := by
  rw [String.utf8ByteSize_ofList, length_encode]
  induction cs with
  | nil => rfl
  | cons c cs ih => rw [String.utf8Len_cons, ih, byteSize, Nat.add_comm]

/-- A text can be cut behind any part of it. -/
theorem cutAt?_append (front back : List Char) :
    cutAt? (byteSize front) (front ++ back) = some (front, back) := by
  induction front with
  | nil => rw [List.nil_append, byteSize, cutAt?]
  | cons c front ih =>
    have hpos := c.utf8Size_pos
    obtain ⟨n, hn⟩ : ∃ n, byteSize (c :: front) = n + 1 :=
      Nat.exists_eq_succ_of_ne_zero (by rw [byteSize]; omega)
    have hrest : n + 1 - c.utf8Size = byteSize front := by rw [← hn, byteSize]; omega
    have hle : c.utf8Size ≤ n + 1 := by rw [← hn, byteSize]; omega
    rw [hn, List.cons_append, cutAt?, if_pos hle, hrest, ih]
    rfl

/-- A cut gives the parts of the text, the first of them as long as asked for. -/
theorem eq_append_of_cutAt? {n : Nat} {cs front back : List Char}
    (h : cutAt? n cs = some (front, back)) : cs = front ++ back ∧ byteSize front = n := by
  fun_induction cutAt? n cs generalizing front with
  | case1 cs =>
    cases h
    exact ⟨rfl, rfl⟩
  | case2 => cases h
  | case3 n c cs hle ih =>
    obtain ⟨⟨front', back'⟩, hcut, hparts⟩ := Option.map_eq_some_iff.mp h
    cases hparts
    obtain ⟨rfl, hsize⟩ := ih hcut
    refine ⟨rfl, ?_⟩
    rw [byteSize]
    omega
  | case4 => cases h

theorem from?_eq_some_iff {n : Nat} {cs back : List Char} :
    from? n cs = some back ↔ ∃ front, cs = front ++ back ∧ byteSize front = n := by
  constructor
  · intro h
    obtain ⟨⟨front, back'⟩, hcut, rfl⟩ := Option.map_eq_some_iff.mp h
    exact ⟨front, eq_append_of_cutAt? hcut⟩
  · rintro ⟨front, rfl, rfl⟩
    rw [from?, cutAt?_append]
    rfl

theorem from?_zero (cs : List Char) : from? 0 cs = some cs := by
  rw [from?, cutAt?]
  rfl

section

variable {place : Nat} {cs front back : List Char}

/-- Behind what is read at a place, there is a place again. -/
theorem from?_add (h : from? place cs = some (front ++ back)) :
    from? (place + byteSize front) cs = some back := by
  obtain ⟨before, rfl, rfl⟩ := from?_eq_some_iff.mp h
  exact from?_eq_some_iff.mpr ⟨before ++ front, (List.append_assoc ..).symm, byteSize_append ..⟩

theorem from?_succ {c : Char} (hc : c.utf8Size = 1) (h : from? place cs = some (c :: back)) :
    from? (place + 1) cs = some back := by
  have hbehind := from?_add (show from? place cs = some ([c] ++ back) from h)
  rwa [byteSize, byteSize, hc] at hbehind

theorem slice?_of_from? (h : from? place cs = some (front ++ back)) :
    slice? place (place + byteSize front) cs = some front := by
  rw [slice?, if_neg (by omega), h, Nat.add_sub_cancel_left]
  simp [cutAt?_append]

/-- A slice is a part of the text that stands behind as many bytes as asked for and takes up the others. -/
theorem slice?_eq_some_iff {first last : Nat} {part : List Char} :
    slice? first last cs = some part ↔
      ∃ front back, cs = front ++ (part ++ back) ∧ byteSize front = first ∧
        last = first + byteSize part := by
  constructor
  · intro h
    unfold slice? at h
    split at h
    · cases h
    · obtain ⟨rest, hrest, hcut⟩ := Option.bind_eq_some_iff.mp h
      obtain ⟨⟨part, back⟩, hback, rfl⟩ := Option.map_eq_some_iff.mp hcut
      obtain ⟨front, rfl, hfront⟩ := from?_eq_some_iff.mp hrest
      obtain ⟨rfl, hpart⟩ := eq_append_of_cutAt? hback
      exact ⟨front, back, rfl, hfront, by dsimp only; omega⟩
  · rintro ⟨front, back, rfl, rfl, rfl⟩
    exact slice?_of_from? (from?_eq_some_iff.mpr ⟨front, rfl, rfl⟩)

theorem replace?_append (part value : List Char) :
    replace? (byteSize front) (byteSize front + byteSize part) value (front ++ (part ++ back)) =
      some (front ++ value ++ back) := by
  have hback : from? (byteSize front + byteSize part) (front ++ (part ++ back)) = some back :=
    from?_eq_some_iff.mpr ⟨front ++ part, (List.append_assoc ..).symm, byteSize_append ..⟩
  rw [replace?, cutAt?_append, Option.bind_some, hback]
  rfl

theorem takeWhile_ne_append {c : Char} (h : c ∉ front) :
    (front ++ c :: back).takeWhile (· ≠ c) = front := by
  have hfront : ∀ d ∈ front, decide (d ≠ c) = true := fun d hd =>
    decide_eq_true fun heq => h (heq ▸ hd)
  rw [List.takeWhile_append_of_pos hfront, List.takeWhile_cons_of_neg (by simp), List.append_nil]

/-- A search finds the place before the first of the characters it looks for. -/
theorem offsetOf?_append {c : Char} (h : c ∉ front) :
    offsetOf? c (front ++ c :: back) = some (byteSize front) := by
  rw [offsetOf?, if_pos (List.mem_append_right _ List.mem_cons_self), takeWhile_ne_append h]

theorem drop_encode (h : from? place cs = some back) : (encode cs).drop place = encode back := by
  obtain ⟨before, rfl, rfl⟩ := from?_eq_some_iff.mp h
  rw [encode_append, ← length_encode, List.drop_left]

theorem getElem?_encode (h : from? place cs = some back) :
    (encode cs)[place]? = (encode back).head? := by
  rw [← drop_encode h, List.head?_drop]

end

-- ---------------------------------------------------------------------------
-- Characters told by their first byte
-- ---------------------------------------------------------------------------

/-- No byte of a character that is not ASCII is. -/
theorem le_of_mem_utf8EncodeChar {c : Char} (h : 128 ≤ c.toNat) :
    ∀ byte ∈ String.utf8EncodeChar c, 128 ≤ byte.toNat := by
  have hvalue : c.val.toNat = c.toNat := rfl
  intro byte hbyte
  rw [String.utf8EncodeChar, hvalue, if_neg (by omega)] at hbyte
  split_ifs at hbyte
  all_goals simp only [List.mem_cons, List.not_mem_nil, or_false] at hbyte
  · rcases hbyte with rfl | rfl <;> rw [UInt8.toNat_ofNat'] <;> omega
  · rcases hbyte with rfl | rfl | rfl <;> rw [UInt8.toNat_ofNat'] <;> omega
  · rcases hbyte with rfl | rfl | rfl | rfl <;> rw [UInt8.toNat_ofNat'] <;> omega

/-- An ASCII character is its own byte, and the bytes of any other begin with one that is not ASCII. -/
theorem utf8EncodeChar_cases (c : Char) :
    (c.toNat < 128 ∧ String.utf8EncodeChar c = [c.toUInt8]) ∨
      (128 ≤ c.toNat ∧ ∃ b bytes, String.utf8EncodeChar c = b :: bytes ∧ 128 ≤ b.toNat) := by
  have hvalue : c.val.toNat = c.toNat := rfl
  by_cases hascii : c.toNat < 128
  · refine .inl ⟨hascii, ?_⟩
    rw [String.utf8EncodeChar, hvalue, if_pos (by omega)]
    rfl
  · have hc := Nat.le_of_not_lt hascii
    obtain ⟨b, bytes, hbytes⟩ := List.exists_cons_of_ne_nil (String.utf8EncodeChar_ne_nil (c := c))
    exact .inr ⟨hc, b, bytes, hbytes, le_of_mem_utf8EncodeChar hc b (hbytes ▸ List.mem_cons_self)⟩

theorem toNat_toUInt8 {c : Char} (h : c.toNat < 128) : c.toUInt8.toNat = c.toNat := by
  show c.toNat % 256 = c.toNat
  omega

theorem toUInt8_inj {c d : Char} (hc : c.toNat < 128) (hd : d.toNat < 128) :
    c.toUInt8 = d.toUInt8 ↔ c = d := by
  refine ⟨fun h => ?_, congrArg Char.toUInt8⟩
  rw [← Char.toNat_inj, ← toNat_toUInt8 hc, ← toNat_toUInt8 hd, h]

/-- The bytes of a text begin with that of an ASCII character if the text begins with the character. -/
theorem head?_encode_eq_iff {d : Char} (hd : d.toNat < 128) (cs : List Char) :
    (encode cs).head? = some d.toUInt8 ↔ cs.head? = some d := by
  cases cs with
  | nil => simp [encode]
  | cons c cs =>
    rw [encode_cons, List.head?_cons, Option.some.injEq]
    rcases utf8EncodeChar_cases c with ⟨hc, hbytes⟩ | ⟨hc, b, bytes, hbytes, hb⟩
    · rw [hbytes, List.singleton_append, List.head?_cons, Option.some.injEq, toUInt8_inj hc hd]
    · rw [hbytes, List.cons_append, List.head?_cons, Option.some.injEq]
      refine ⟨fun h => ?_, fun h => ?_⟩
      · rw [h, toNat_toUInt8 hd] at hb
        omega
      · rw [h] at hc
        omega

theorem head?_encode_eq_none_iff (cs : List Char) : (encode cs).head? = none ↔ cs = [] := by
  rw [List.head?_eq_none_iff]
  exact ⟨fun h => encode_injective h, fun h => h ▸ rfl⟩

end Literate.Text.Utf8
