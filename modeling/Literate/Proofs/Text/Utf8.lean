import Literate.Text.Utf8
import Mathlib

/-!
# Text out of its own bytes

A text is sent as bytes and read from bytes, and what one side writes the other reads. `decodeLossy` is
made for any bytes, but on those of a text it loses nothing. Bytes of a text also show where its
characters start: no byte inside a character could be the first of one. So a text whose bytes stand at the
end of those of another is itself the end of the other.

Main results:

* `readChar_utf8EncodeChar`: a character is read back from its bytes, whatever comes after them.
* `decodeLossy_encode`: a text is read back from its bytes.
* `count_feed_encode`: the line feeds of a text are those among its bytes.
* `decodeLossy_append_ascii`: bytes that are no text can be read in two parts where an ASCII character ends.
* `encode_suffix_iff`: the bytes of a text end those of another exactly when the text ends the other.
-/

namespace Literate.Text.Utf8

-- ---------------------------------------------------------------------------
-- Reading one character
-- ---------------------------------------------------------------------------

section

variable {b₀ b₁ : UInt8} {v : Nat}

theorem toNat_ofNat_of_lt {n : Nat} (h : n < 256) : (UInt8.ofNat n).toNat = n := by
  rw [UInt8.toNat_ofNat', Nat.mod_eq_of_lt h]

theorem isContinuation_ofNat (v : Nat) : isContinuation (UInt8.ofNat (v % 0x40 + 0x80)) = true := by
  have hbyte := toNat_ofNat_of_lt (n := v % 0x40 + 0x80) (by omega)
  simp only [isContinuation, UInt8.le_iff_toNat_le, hbyte, UInt8.reduceToNat, Bool.and_eq_true,
    decide_eq_true_eq]
  omega

theorem continuationBits_of_toNat {n : Nat} (h : b₀.toNat = n + 0x80) : continuationBits b₀ = n := by
  unfold continuationBits
  omega

theorem continuationBits_ofNat (v : Nat) :
    continuationBits (UInt8.ofNat (v % 0x40 + 0x80)) = v % 0x40 :=
  continuationBits_of_toNat (toNat_ofNat_of_lt (by omega))

theorem isSecondOfThree_of_isContinuation (h : isContinuation b₁ = true)
    (hlow : b₀.toNat = 0xE0 → 0xA0 ≤ b₁.toNat) (hhigh : b₀.toNat = 0xED → b₁.toNat ≤ 0x9F) :
    isSecondOfThree b₀ b₁ = true := by
  have hrange := h
  simp only [isContinuation, UInt8.le_iff_toNat_le, UInt8.reduceToNat, Bool.and_eq_true,
    decide_eq_true_eq] at hrange
  rw [isSecondOfThree]
  by_cases h₀ : b₀ = 0xE0
  · simp [h₀, UInt8.le_iff_toNat_le, hlow (by rw [h₀]; rfl), hrange.2]
  by_cases h₁ : b₀ = 0xED
  · simp [h₁, UInt8.le_iff_toNat_le, hhigh (by rw [h₁]; rfl), hrange.1]
  · rw [if_neg h₀, if_neg h₁, h]

theorem isSecondOfFour_of_isContinuation (h : isContinuation b₁ = true)
    (hlow : b₀.toNat = 0xF0 → 0x90 ≤ b₁.toNat) (hhigh : b₀.toNat = 0xF4 → b₁.toNat ≤ 0x8F) :
    isSecondOfFour b₀ b₁ = true := by
  have hrange := h
  simp only [isContinuation, UInt8.le_iff_toNat_le, UInt8.reduceToNat, Bool.and_eq_true,
    decide_eq_true_eq] at hrange
  rw [isSecondOfFour]
  by_cases h₀ : b₀ = 0xF0
  · simp [h₀, UInt8.le_iff_toNat_le, hlow (by rw [h₀]; rfl), hrange.2]
  by_cases h₁ : b₀ = 0xF4
  · simp [h₁, UInt8.le_iff_toNat_le, hhigh (by rw [h₁]; rfl), hrange.1]
  · rw [if_neg h₀, if_neg h₁, h]

theorem readChar_one (h : v ≤ 0x7F) (rest : List UInt8) :
    readChar (UInt8.ofNat v) rest = (some (Char.ofNat v), 0) := by
  have hbyte : (UInt8.ofNat v).toNat = v := toNat_ofNat_of_lt (by omega)
  have hlt : UInt8.ofNat v < 0x80 := by
    simp only [UInt8.lt_iff_toNat_lt, hbyte, UInt8.reduceToNat]
    omega
  rw [readChar.eq_def, if_pos hlt, hbyte]

theorem readChar_two (h : 0x7F < v) (h' : v ≤ 0x7FF) (rest : List UInt8) :
    readChar (UInt8.ofNat (v / 64 % 0x20 + 0xc0)) (UInt8.ofNat (v % 0x40 + 0x80) :: rest) =
      (some (Char.ofNat v), 1) := by
  have hbyte : (UInt8.ofNat (v / 64 % 0x20 + 0xc0)).toNat = v / 64 % 0x20 + 0xc0 :=
    toNat_ofNat_of_lt (by omega)
  have hcont := isContinuation_ofNat v
  have hbits := continuationBits_ofNat v
  generalize UInt8.ofNat (v / 64 % 0x20 + 0xc0) = b₀ at hbyte
  generalize UInt8.ofNat (v % 0x40 + 0x80) = b₁ at hcont hbits
  have h₀ : ¬ b₀ < 0x80 ∧ ¬ b₀ < 0xC2 ∧ b₀ < 0xE0 := by
    simp only [UInt8.lt_iff_toNat_lt, UInt8.reduceToNat]
    omega
  have hv : (b₀.toNat - 0xC0) * 64 + continuationBits b₁ = v := by
    omega
  simp only [readChar, h₀, hcont, hv, if_true, if_false]

theorem readChar_three (h : 0x7FF < v) (h' : v ≤ 0xFFFF) (hvalid : v < 0xD800 ∨ 0xDFFF < v)
    (rest : List UInt8) :
    readChar (UInt8.ofNat (v / 4096 % 0x10 + 0xe0))
        (UInt8.ofNat (v / 64 % 0x40 + 0x80) :: UInt8.ofNat (v % 0x40 + 0x80) :: rest) =
      (some (Char.ofNat v), 2) := by
  have hbyte : (UInt8.ofNat (v / 4096 % 0x10 + 0xe0)).toNat = v / 4096 % 0x10 + 0xe0 :=
    toNat_ofNat_of_lt (by omega)
  have hbyte₁ : (UInt8.ofNat (v / 64 % 0x40 + 0x80)).toNat = v / 64 % 0x40 + 0x80 :=
    toNat_ofNat_of_lt (by omega)
  have hcont₁ := isContinuation_ofNat (v / 64)
  have hbits₁ := continuationBits_ofNat (v / 64)
  have hcont₂ := isContinuation_ofNat v
  have hbits₂ := continuationBits_ofNat v
  generalize UInt8.ofNat (v / 4096 % 0x10 + 0xe0) = b₀ at hbyte
  generalize UInt8.ofNat (v / 64 % 0x40 + 0x80) = b₁ at hbyte₁ hcont₁ hbits₁
  generalize UInt8.ofNat (v % 0x40 + 0x80) = b₂ at hcont₂ hbits₂
  have h₀ : ¬ b₀ < 0x80 ∧ ¬ b₀ < 0xC2 ∧ ¬ b₀ < 0xE0 ∧ b₀ < 0xF0 := by
    simp only [UInt8.lt_iff_toNat_lt, UInt8.reduceToNat]
    omega
  -- The two bounds on the second byte keep out short forms and surrogates.
  have hsecond : isSecondOfThree b₀ b₁ = true :=
    isSecondOfThree_of_isContinuation hcont₁ (by omega) (by omega)
  have hv : ((b₀.toNat - 0xE0) * 64 + continuationBits b₁) * 64 + continuationBits b₂ = v := by
    omega
  simp only [readChar, h₀, hsecond, hcont₂, hv, if_true, if_false]

theorem readChar_four (h : 0xFFFF < v) (hvalid : v < 0x110000) (rest : List UInt8) :
    readChar (UInt8.ofNat (v / 262144 % 0x08 + 0xf0))
        (UInt8.ofNat (v / 4096 % 0x40 + 0x80) :: UInt8.ofNat (v / 64 % 0x40 + 0x80) ::
          UInt8.ofNat (v % 0x40 + 0x80) :: rest) =
      (some (Char.ofNat v), 3) := by
  have hbyte : (UInt8.ofNat (v / 262144 % 0x08 + 0xf0)).toNat = v / 262144 % 0x08 + 0xf0 :=
    toNat_ofNat_of_lt (by omega)
  have hbyte₁ : (UInt8.ofNat (v / 4096 % 0x40 + 0x80)).toNat = v / 4096 % 0x40 + 0x80 :=
    toNat_ofNat_of_lt (by omega)
  have hcont₁ := isContinuation_ofNat (v / 4096)
  have hbits₁ := continuationBits_ofNat (v / 4096)
  have hcont₂ := isContinuation_ofNat (v / 64)
  have hbits₂ := continuationBits_ofNat (v / 64)
  have hcont₃ := isContinuation_ofNat v
  have hbits₃ := continuationBits_ofNat v
  generalize UInt8.ofNat (v / 262144 % 0x08 + 0xf0) = b₀ at hbyte
  generalize UInt8.ofNat (v / 4096 % 0x40 + 0x80) = b₁ at hbyte₁ hcont₁ hbits₁
  generalize UInt8.ofNat (v / 64 % 0x40 + 0x80) = b₂ at hcont₂ hbits₂
  generalize UInt8.ofNat (v % 0x40 + 0x80) = b₃ at hcont₃ hbits₃
  have h₀ : ¬ b₀ < 0x80 ∧ ¬ b₀ < 0xC2 ∧ ¬ b₀ < 0xE0 ∧ ¬ b₀ < 0xF0 ∧ b₀ < 0xF5 := by
    simp only [UInt8.lt_iff_toNat_lt, UInt8.reduceToNat]
    omega
  have hsecond : isSecondOfFour b₀ b₁ = true :=
    isSecondOfFour_of_isContinuation hcont₁ (by omega) (by omega)
  have hv : (((b₀.toNat - 0xF0) * 64 + continuationBits b₁) * 64 + continuationBits b₂) * 64 +
      continuationBits b₃ = v := by
    omega
  simp only [readChar, h₀, hsecond, hcont₂, hcont₃, hv, if_true, if_false]

end

/-- A character is read back from its bytes, whatever comes after them. -/
theorem readChar_utf8EncodeChar (c : Char) :
    ∃ b bytes, String.utf8EncodeChar c = b :: bytes ∧
      ∀ rest, readChar b (bytes ++ rest) = (some c, bytes.length) := by
  have hvalid : c.toNat < 0xD800 ∨ 0xDFFF < c.toNat ∧ c.toNat < 0x110000 := c.valid
  have hc : Char.ofNat c.toNat = c := Char.ofNat_toNat c
  have hval : c.val.toNat = c.toNat := rfl
  have hread : ∀ b bytes,
      (∀ rest, readChar b (bytes ++ rest) = (some (Char.ofNat c.toNat), bytes.length)) →
      ∃ b' bytes', b :: bytes = b' :: bytes' ∧
        ∀ rest, readChar b' (bytes' ++ rest) = (some c, bytes'.length) :=
    fun _ _ h => ⟨_, _, rfl, hc ▸ h⟩
  simp only [String.utf8EncodeChar, hval]
  by_cases h₁ : c.toNat ≤ 0x7F
  · rw [if_pos h₁]
    exact hread _ [] (readChar_one h₁)
  by_cases h₂ : c.toNat ≤ 0x7FF
  · rw [if_neg h₁, if_pos h₂]
    exact hread _ [_] (readChar_two (by omega) h₂)
  by_cases h₃ : c.toNat ≤ 0xFFFF
  · rw [if_neg h₁, if_neg h₂, if_pos h₃]
    exact hread _ [_, _] (readChar_three (by omega) h₃ (by omega))
  · rw [if_neg h₁, if_neg h₂, if_neg h₃]
    exact hread _ [_, _, _] (readChar_four (by omega) (by omega))

-- ---------------------------------------------------------------------------
-- Reading a text
-- ---------------------------------------------------------------------------

theorem readAll_utf8EncodeChar (c : Char) (rest : List UInt8) :
    readAll (String.utf8EncodeChar c ++ rest) = some c :: readAll rest := by
  obtain ⟨b, bytes, hbytes, hread⟩ := readChar_utf8EncodeChar c
  rw [hbytes, List.cons_append, readAll, hread]
  simp

theorem encode_append (cs ds : List Char) : encode (cs ++ ds) = encode cs ++ encode ds :=
  List.flatMap_append ..

theorem encode_cons (c : Char) (cs : List Char) :
    encode (c :: cs) = String.utf8EncodeChar c ++ encode cs :=
  List.flatMap_cons ..

theorem readAll_encode_append (cs : List Char) (rest : List UInt8) :
    readAll (encode cs ++ rest) = cs.map some ++ readAll rest := by
  induction cs with
  | nil => rfl
  | cons c cs ih =>
    rw [encode_cons, List.append_assoc, readAll_utf8EncodeChar, ih, List.map_cons, List.cons_append]

/-- A text is read back from its bytes, whatever comes after them. -/
theorem decodeLossy_encode_append (cs : List Char) (rest : List UInt8) :
    decodeLossy (encode cs ++ rest) = cs ++ decodeLossy rest := by
  rw [decodeLossy, readAll_encode_append, List.map_append, decodeLossy]
  simp

theorem readAll_nil : readAll [] = [] :=
  readAll.eq_def []

/-- A text is read back from its bytes. -/
theorem decodeLossy_encode (cs : List Char) : decodeLossy (encode cs) = cs := by
  have hnil : decodeLossy [] = [] := by rw [decodeLossy, readAll_nil, List.map_nil]
  rw [← List.append_nil (encode cs), decodeLossy_encode_append, hnil, List.append_nil]

theorem encode_injective : Function.Injective encode :=
  Function.LeftInverse.injective decodeLossy_encode

-- ---------------------------------------------------------------------------
-- Around an ASCII character
-- ---------------------------------------------------------------------------

theorem isContinuation_ascii {b : UInt8} (h : b < 0x80) : isContinuation b = false := by
  simp only [isContinuation, UInt8.le_iff_toNat_le, UInt8.lt_iff_toNat_lt, UInt8.reduceToNat,
    Bool.and_eq_false_iff, decide_eq_false_iff_not] at h ⊢
  omega

theorem isSecondOfThree_ascii (b₀ : UInt8) {b : UInt8} (h : b < 0x80) : isSecondOfThree b₀ b = false := by
  have hcont := isContinuation_ascii h
  rw [isSecondOfThree]
  simp only [UInt8.le_iff_toNat_le, UInt8.lt_iff_toNat_lt, UInt8.reduceToNat] at h ⊢
  split_ifs
  · simp; omega
  · simp; omega
  · exact hcont

theorem isSecondOfFour_ascii (b₀ : UInt8) {b : UInt8} (h : b < 0x80) : isSecondOfFour b₀ b = false := by
  have hcont := isContinuation_ascii h
  rw [isSecondOfFour]
  simp only [UInt8.le_iff_toNat_le, UInt8.lt_iff_toNat_lt, UInt8.reduceToNat] at h ⊢
  split_ifs
  · simp; omega
  · simp; omega
  · exact hcont

theorem readChar_append_ascii {a : UInt8} (h : a < 0x80) (b : UInt8) (bs rest : List UInt8) :
    readChar b (bs ++ a :: rest) = readChar b bs := by
  have hcont := isContinuation_ascii h
  have hthree := isSecondOfThree_ascii b h
  have hfour := isSecondOfFour_ascii b h
  rcases bs with _ | ⟨b₁, _ | ⟨b₂, _ | ⟨b₃, bs⟩⟩⟩ <;>
    simp [readChar, hcont, hthree, hfour]

theorem readChar_snd_le (b : UInt8) (bs : List UInt8) : (readChar b bs).2 ≤ bs.length := by
  rcases bs with _ | ⟨b₁, _ | ⟨b₂, _ | ⟨b₃, bs⟩⟩⟩ <;>
    (unfold readChar; simp only [List.length_cons, List.length_nil]; split_ifs <;> simp)

theorem readAll_append_ascii {a : UInt8} (h : a < 0x80) (bs rest : List UInt8) :
    readAll (bs ++ a :: rest) = readAll bs ++ some (Char.ofNat a.toNat) :: readAll rest := by
  fun_induction readAll bs with
  | case1 =>
    have hread : readChar a rest = (some (Char.ofNat a.toNat), 0) := by
      rw [readChar.eq_def, if_pos h]
    rw [List.nil_append, readAll, hread]
    rfl
  | case2 b bs c extra hread ih =>
    have hle := readChar_snd_le b bs
    rw [hread] at hle
    rw [List.cons_append, readAll, readChar_append_ascii h, hread]
    simp only
    rw [List.drop_append_of_le_length hle, ih, List.cons_append]

theorem le_toNat_ofNat {v : Nat} (h : 0x80 ≤ v) (hpos : 0 < (Char.ofNat v).toNat) :
    0x80 ≤ (Char.ofNat v).toNat := by
  by_cases hvalid : v.isValidChar
  · rwa [Char.toNat_ofNat, if_pos hvalid]
  · rw [Char.toNat_ofNat, if_neg hvalid] at hpos
    exact absurd hpos (Nat.lt_irrefl 0)

theorem le_of_isSecondOfThree {b₀ b₁ : UInt8} (h₀ : ¬b₀ < 0xE0) (h : isSecondOfThree b₀ b₁ = true) :
    2 ≤ (b₀.toNat - 0xE0) * 64 + continuationBits b₁ := by
  simp only [isSecondOfThree, isContinuation, UInt8.lt_iff_toNat_lt, UInt8.le_iff_toNat_le,
    ← UInt8.toNat_inj, UInt8.reduceToNat] at h h₀
  unfold continuationBits
  split_ifs at h
  all_goals
    simp only [Bool.and_eq_true, decide_eq_true_eq] at h
    omega

theorem le_of_isSecondOfFour {b₀ b₁ : UInt8} (h₀ : ¬b₀ < 0xF0) (h : isSecondOfFour b₀ b₁ = true) :
    1 ≤ (b₀.toNat - 0xF0) * 64 + continuationBits b₁ := by
  simp only [isSecondOfFour, isContinuation, UInt8.lt_iff_toNat_lt, UInt8.le_iff_toNat_le,
    ← UInt8.toNat_inj, UInt8.reduceToNat] at h h₀
  unfold continuationBits
  split_ifs at h
  all_goals
    simp only [Bool.and_eq_true, decide_eq_true_eq] at h
    omega

/-- A character that is read from several bytes is not ASCII. -/
theorem readChar_several {b : UInt8} {bs : List UInt8} {c : Char} {extra : Nat}
    (h : readChar b bs = (some c, extra)) (hb : ¬b < 0x80) : ∃ v, 0x80 ≤ v ∧ c = Char.ofNat v := by
  unfold readChar at h
  rw [if_neg hb] at h
  -- A second byte has a lower bound of its own where the first could begin a code that is too long.
  split_ifs at h with hshort htwo hthree hfour
  · cases h
  · have hlow : 0xC2 ≤ b.toNat := by
      simpa only [UInt8.lt_iff_toNat_lt, UInt8.reduceToNat, Nat.not_lt] using hshort
    rcases bs with _ | ⟨b₁, bs⟩
    · cases h
    · dsimp only at h
      split_ifs at h
      · exact ⟨_, by omega, (Option.some.inj (Prod.mk.inj h).1).symm⟩
      · cases h
  · rcases bs with _ | ⟨b₁, _ | ⟨b₂, bs⟩⟩
    · cases h
    · dsimp only at h
      split_ifs at h <;> cases h
    · dsimp only at h
      split_ifs at h with hsecond hcont
      · have hle := le_of_isSecondOfThree htwo hsecond
        exact ⟨_, by omega, (Option.some.inj (Prod.mk.inj h).1).symm⟩
      · cases h
      · cases h
  · rcases bs with _ | ⟨b₁, _ | ⟨b₂, _ | ⟨b₃, bs⟩⟩⟩
    · cases h
    · dsimp only at h
      split_ifs at h <;> cases h
    · dsimp only at h
      split_ifs at h <;> cases h
    · dsimp only at h
      split_ifs at h with hsecond hcont hcont'
      · have hle := le_of_isSecondOfFour hthree hsecond
        exact ⟨_, by omega, (Option.some.inj (Prod.mk.inj h).1).symm⟩
      · cases h
      · cases h
      · cases h
  · cases h

/-- An ASCII character is read from its own byte only. -/
theorem eq_of_readChar_ascii {b : UInt8} {bs : List UInt8} {c : Char} {extra : Nat}
    (h : readChar b bs = (some c, extra)) (hpos : 0 < c.toNat) (hascii : c.toNat < 0x80) :
    extra = 0 ∧ b = c.toUInt8 := by
  by_cases hb : b < 0x80
  · rw [readChar.eq_def, if_pos hb] at h
    obtain ⟨hc, hextra⟩ := Prod.mk.inj h
    rw [← Option.some.inj hc]
    refine ⟨hextra.symm, UInt8.toNat_inj.mp ?_⟩
    simp only [UInt8.lt_iff_toNat_lt, UInt8.reduceToNat] at hb
    have hvalid : b.toNat.isValidChar := .inl (by omega)
    show b.toNat = (Char.ofNat b.toNat).toNat % 256
    rw [Char.toNat_ofNat, if_pos hvalid]
    omega
  · obtain ⟨v, hv, rfl⟩ := readChar_several h hb
    have hle := le_toNat_ofNat hv hpos
    omega

theorem exists_of_readAll_ascii {d : Char} (hpos : 0 < d.toNat) (hascii : d.toNat < 0x80)
    {bs : List UInt8} {cs : List (Option Char)} (h : readAll bs = cs ++ [some d]) :
    ∃ front, bs = front ++ [d.toUInt8] := by
  fun_induction readAll bs generalizing cs with
  | case1 => simp at h
  | case2 b bs c extra hread ih =>
    rcases cs with _ | ⟨c', cs⟩
    · obtain ⟨rfl, hnil⟩ := List.cons.inj h
      obtain ⟨rfl, rfl⟩ := eq_of_readChar_ascii hread hpos hascii
      cases bs with
      | nil => exact ⟨[], rfl⟩
      | cons b' bs =>
        rw [List.drop_zero, readAll] at hnil
        cases hnil
    · obtain ⟨front, hfront⟩ := ih (List.cons.inj h).2
      refine ⟨b :: (bs.take extra ++ front), ?_⟩
      rw [List.cons_append, List.append_assoc, ← hfront, List.take_append_drop]

/-- Bytes that are read as a text with an ASCII character at its end have the byte of the character at their
end. -/
theorem exists_of_decodeLossy_ascii {d : Char} (hpos : 0 < d.toNat) (hascii : d.toNat < 0x80)
    {bs : List UInt8} {cs : List Char} (h : decodeLossy bs = cs ++ [d]) :
    ∃ front, bs = front ++ [d.toUInt8] := by
  obtain ⟨chars, last, hread, -, hlast⟩ := List.map_eq_append_iff.mp h
  obtain ⟨c, rest, rfl, hc, hrest⟩ := List.map_eq_cons_iff.mp hlast
  obtain rfl := List.map_eq_nil_iff.mp hrest
  cases c with
  | none =>
    obtain rfl : '\uFFFD' = d := hc
    exact absurd hascii (by decide)
  | some c =>
    obtain rfl : c = d := hc
    exact exists_of_readAll_ascii hpos hascii hread

/-- Bytes are read in two parts if the first ends in an ASCII character. -/
theorem decodeLossy_append_ascii {b : UInt8} (h : b < 0x80) (front rest : List UInt8) :
    decodeLossy (front ++ [b] ++ rest) = decodeLossy (front ++ [b]) ++ decodeLossy rest := by
  rw [decodeLossy, decodeLossy, decodeLossy, List.append_assoc, List.singleton_append,
    readAll_append_ascii h, readAll_append_ascii h, readAll_nil]
  simp

-- ---------------------------------------------------------------------------
-- Line feeds
-- ---------------------------------------------------------------------------

/-- Only a line feed has the byte of one. -/
theorem count_feed_utf8EncodeChar (c : Char) :
    (String.utf8EncodeChar c).count 0x0A = if c = '\n' then 1 else 0 := by
  have hvalue : c = '\n' ↔ c.val.toNat = 0x0A := Char.toNat_inj.symm
  have hbyte : ∀ n, n % 256 ≠ 0x0A → UInt8.ofNat n ≠ 0x0A := by
    intro n hn heq
    have htoNat := congrArg UInt8.toNat heq
    rw [UInt8.toNat_ofNat'] at htoNat
    exact hn htoNat
  rw [if_congr hvalue rfl rfl, String.utf8EncodeChar]
  by_cases hfeed : c.val.toNat = 0x0A
  · simp [hfeed]
  rw [if_neg hfeed, List.count_eq_zero]
  intro hmem
  split_ifs at hmem with h₁ h₂ h₃
  all_goals simp only [List.mem_cons, List.not_mem_nil, or_false] at hmem
  · exact hbyte _ (by omega) hmem.symm
  · rcases hmem with hmem | hmem <;> exact hbyte _ (by omega) hmem.symm
  · rcases hmem with hmem | hmem | hmem <;> exact hbyte _ (by omega) hmem.symm
  · rcases hmem with hmem | hmem | hmem | hmem <;> exact hbyte _ (by omega) hmem.symm

/-- The bytes of a text hold as many line feeds as the text. -/
theorem count_feed_encode (cs : List Char) : (encode cs).count 0x0A = cs.count '\n' := by
  induction cs with
  | nil => rfl
  | cons c cs ih =>
    rw [encode_cons, List.count_append, count_feed_utf8EncodeChar, ih, List.count_cons, Nat.add_comm]
    simp

-- ---------------------------------------------------------------------------
-- Where characters start
-- ---------------------------------------------------------------------------

/-- The bytes of a text begin with one that starts a character. -/
theorem head_encode {cs : List Char} {b : UInt8} {bytes : List UInt8} (h : encode cs = b :: bytes) :
    b.IsUTF8FirstByte := by
  rcases cs with _ | ⟨c, cs⟩
  · cases h
  · have hzero : (String.utf8EncodeChar c)[0]? = some b := by
      have hhead := congrArg (·[0]?) h
      have hpos : 0 < (String.utf8EncodeChar c).length := by
        rw [String.length_utf8EncodeChar]; exact c.utf8Size_pos
      rwa [encode_cons, List.getElem?_append_left hpos] at hhead
    obtain ⟨hlt, rfl⟩ := List.getElem?_eq_some_iff.mp hzero
    exact UInt8.isUTF8FirstByte_getElem_utf8EncodeChar.mpr rfl

/-- Where the bytes of a text end those of another, the text ends the other: the bytes of a text cannot
start within a character. -/
theorem suffix_of_encode_suffix {cs ds : List Char} (h : encode cs <:+ encode ds) : cs <:+ ds := by
  obtain ⟨before, h⟩ := h
  induction ds generalizing before with
  | nil =>
    have hnil := (List.append_eq_nil_iff.mp h).2
    rw [encode_injective (hnil.trans rfl : encode cs = encode [])]
  | cons d ds ih =>
    rw [encode_cons] at h
    rcases List.append_eq_append_iff.mp h with ⟨more, hchar, htail⟩ | ⟨more, -, htail⟩
    · rcases more with _ | ⟨b, more⟩
      · rw [List.nil_append] at htail
        exact encode_injective htail ▸ List.suffix_cons d ds
      · -- A text starts at `b`, which is a byte of `d`, so nothing of `d` comes before it.
        have hbyte : (String.utf8EncodeChar d)[before.length]? = some b := by
          rw [hchar, List.getElem?_append_right (Nat.le_refl _), Nat.sub_self]
          rfl
        obtain ⟨hlt, rfl⟩ := List.getElem?_eq_some_iff.mp hbyte
        have hfirst := UInt8.isUTF8FirstByte_getElem_utf8EncodeChar.mp (head_encode htail)
        rw [List.length_eq_zero_iff.mp hfirst, List.nil_append, ← encode_cons] at h
        exact encode_injective h ▸ List.suffix_refl _
    · exact (ih more htail.symm).trans (List.suffix_cons d ds)

theorem encode_suffix_iff {cs ds : List Char} : encode cs <:+ encode ds ↔ cs <:+ ds := by
  refine ⟨suffix_of_encode_suffix, ?_⟩
  rintro ⟨before, rfl⟩
  exact ⟨encode before, (encode_append ..).symm⟩

end Literate.Text.Utf8
