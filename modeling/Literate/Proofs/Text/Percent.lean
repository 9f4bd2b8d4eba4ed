import Literate.Text.Percent
import Literate.Proofs.Text.BytePlaces

/-!
# Addresses with escapes

An address is made of plain characters and of escapes (`IsAddress`). What `encode` writes is an address, and it
is read back whatever it was made from. The other way round the escapes of an address are lost: they are
resolved before they are written again, and then an escape stands for a byte if the byte is reserved, and only
then, with its digits in upper case. So of the addresses that are read and written again those stay as they
are whose escapes are of this kind (`IsKept`), and no others.

Main results:

* `decodeBytes_encode`, `isAddress_encode`: what is written is an address, and has the bytes of the text.
* `flatMap_encodeByte_decodeBytes_iff`: which addresses are the same when they are written again.
-/

namespace Literate.Text.Percent

-- ---------------------------------------------------------------------------
-- Escapes
-- ---------------------------------------------------------------------------

/-- The byte that an escape with two digits stands for. -/
def escapeByte? (h l : Char) : Option UInt8 :=
  (hexValue? h).bind fun high => (hexValue? l).map fun low => UInt8.ofNat (16 * high + low)

/-- Whether no escape begins with a character that others stand behind. -/
def Stray (c : Char) (cs : List Char) : Prop :=
  ∀ h l rest, c :: cs = '%' :: h :: l :: rest → escapeByte? h l = none

variable {c h l : Char} {b : UInt8} {cs : List Char}

theorem stray_of_ne (hc : c ≠ '%') : Stray c cs :=
  fun _ _ _ heq => absurd (List.cons.inj heq).1 hc

theorem escapeByte?_eq_some_iff :
    escapeByte? h l = some b ↔
      ∃ high low, hexValue? h = some high ∧ hexValue? l = some low ∧ UInt8.ofNat (16 * high + low) = b := by
  simp only [escapeByte?, Option.bind_eq_some_iff, Option.map_eq_some_iff]
  exact ⟨fun ⟨high, hhigh, low, hlow, hb⟩ => ⟨high, low, hhigh, hlow, hb⟩,
    fun ⟨high, low, hhigh, hlow, hb⟩ => ⟨high, hhigh, low, hlow, hb⟩⟩

theorem decodeBytes_escape (hb : escapeByte? h l = some b) (cs : List Char) :
    decodeBytes ('%' :: h :: l :: cs) = b :: decodeBytes cs := by
  obtain ⟨high, low, hhigh, hlow, rfl⟩ := escapeByte?_eq_some_iff.mp hb
  rw [decodeBytes]
  simp only [hhigh, hlow]

theorem decodeBytes_stray (hstray : Stray c cs) :
    decodeBytes (c :: cs) = String.utf8EncodeChar c ++ decodeBytes cs := by
  rw [decodeBytes.eq_def]
  split
  · rename_i heq
    cases heq
  · rename_i h l rest heq
    obtain ⟨rfl, rfl⟩ := List.cons.inj heq
    have hnone := hstray h l rest rfl
    split
    · rename_i high low hhigh hlow
      rw [escapeByte?_eq_some_iff.mpr ⟨high, low, hhigh, hlow, rfl⟩] at hnone
      cases hnone
    · rfl
  · rename_i heq
    obtain ⟨rfl, rfl⟩ := List.cons.inj heq
    rfl

theorem toList_decode (s : String) : (decode s).toList = Utf8.decodeLossy (decodeBytes s.toList) :=
  String.toList_ofList

/-- A text begins with an escape or with a character that stands for itself. -/
theorem escape_or_stray (c : Char) (cs : List Char) :
    (∃ h l b rest, c = '%' ∧ cs = h :: l :: rest ∧ escapeByte? h l = some b) ∨ Stray c cs := by
  by_cases hstray : Stray c cs
  · exact .inr hstray
  · simp only [Stray, not_forall] at hstray
    obtain ⟨h, l, rest, heq, hsome⟩ := hstray
    obtain ⟨rfl, rfl⟩ := List.cons.inj heq
    obtain ⟨b, hb⟩ := Option.ne_none_iff_exists'.mp hsome
    exact .inl ⟨h, l, b, rest, rfl, rfl, hb⟩

theorem decodeBytes_ne_nil : decodeBytes (c :: cs) ≠ [] := by
  rcases escape_or_stray c cs with ⟨h, l, b, rest, rfl, rfl, hb⟩ | hstray
  · rw [decodeBytes_escape hb]
    exact List.cons_ne_nil _ _
  · rw [decodeBytes_stray hstray]
    intro hnil
    have hlength := congrArg List.length (List.append_eq_nil_iff.mp hnil).1
    rw [String.length_utf8EncodeChar] at hlength
    exact absurd hlength c.utf8Size_pos.ne'

/-- Induction along the escapes of a text and the characters that stand for themselves. -/
@[elab_as_elim]
theorem escapes_induction {motive : List Char → Prop} (nil : motive [])
    (escape : ∀ h l b cs, escapeByte? h l = some b → motive cs → motive ('%' :: h :: l :: cs))
    (stray : ∀ c cs, Stray c cs → motive cs → motive (c :: cs)) : ∀ cs, motive cs
  | [] => nil
  | c :: cs => by
    rcases escape_or_stray c cs with ⟨h, l, b, rest, rfl, rfl, hb⟩ | hstray
    · exact escape h l b rest hb (escapes_induction nil escape stray rest)
    · exact stray c cs hstray (escapes_induction nil escape stray cs)
termination_by cs => cs.length

theorem decodeBytes_nil : decodeBytes [] = [] :=
  decodeBytes.eq_def []

theorem decodeBytes_singleton (c : Char) : decodeBytes [c] = String.utf8EncodeChar c := by
  rw [decodeBytes_stray (fun _ _ _ heq => by cases heq), decodeBytes_nil, List.append_nil]

/-- Only a closing brace has the byte of one at its end. -/
theorem eq_of_getLast?_decodeBytes (hlast : (decodeBytes [c]).getLast? = some 0x7D) : c = '\x7d' := by
  rw [decodeBytes_singleton] at hlast
  obtain ⟨front, hfront⟩ := List.getLast?_eq_some_iff.mp hlast
  have hchar : Utf8.encode [c] = front ++ [0x7D] := by
    rw [← hfront, Utf8.encode, List.flatMap_singleton]
  have hsuffix : Utf8.encode ['\x7d'] <:+ Utf8.encode [c] := ⟨front, hchar.symm⟩
  obtain ⟨before, hbefore⟩ := Utf8.encode_suffix_iff.mp hsuffix
  exact (List.append_eq_singleton_iff.mp hbefore).elim
    (fun h => (List.singleton_inj.mp h.2).symm) (fun h => absurd h.2 (List.cons_ne_nil _ _))

/-- The last byte of a text is that of what is behind its first sign. -/
theorem getLast?_append_decodeBytes (bytes : List UInt8) (hne : cs ≠ []) :
    (bytes ++ decodeBytes cs).getLast? = (decodeBytes cs).getLast? := by
  obtain ⟨c, cs, rfl⟩ := List.exists_cons_of_ne_nil hne
  exact List.getLast?_append_of_ne_nil _ decodeBytes_ne_nil

/-- A text that ends in a closing brace does not end within an escape. -/
theorem stray_append (hstray : Stray c cs) (hlast : (decodeBytes (c :: cs)).getLast? = some 0x7D)
    (rest : List Char) : Stray c (cs ++ rest) := by
  intro h l more heq
  obtain ⟨hc, hcs⟩ := List.cons.inj heq
  rcases cs with _ | ⟨h', _ | ⟨l', cs⟩⟩
  · exact absurd (hc.symm.trans (eq_of_getLast?_decodeBytes hlast)) (by decide)
  · obtain ⟨rfl, -⟩ := List.cons.inj hcs
    rw [decodeBytes_stray hstray, getLast?_append_decodeBytes _ (List.cons_ne_nil _ _)] at hlast
    rw [eq_of_getLast?_decodeBytes hlast]
    rfl
  · refine hstray h l cs ?_
    rw [List.cons_append, List.cons_append, List.cons_eq_cons, List.cons_eq_cons] at hcs
    rw [hc, hcs.1, hcs.2.1]

/-- A text that ends in a closing brace is resolved apart from what comes after it. -/
theorem decodeBytes_append (hlast : (decodeBytes cs).getLast? = some 0x7D) (rest : List Char) :
    decodeBytes (cs ++ rest) = decodeBytes cs ++ decodeBytes rest := by
  have hbehind : ∀ bytes cs, ((bytes ++ decodeBytes cs).getLast? = some 0x7D) →
      ((decodeBytes cs).getLast? = some 0x7D →
        decodeBytes (cs ++ rest) = decodeBytes cs ++ decodeBytes rest) →
      decodeBytes (cs ++ rest) = decodeBytes cs ++ decodeBytes rest := by
    intro bytes cs hlast ih
    by_cases hne : cs = []
    · rw [hne, List.nil_append, decodeBytes_nil, List.nil_append]
    · exact ih (getLast?_append_decodeBytes bytes hne ▸ hlast)
  induction cs using escapes_induction with
  | nil =>
    rw [decodeBytes_nil] at hlast
    cases hlast
  | escape h l b cs hb ih =>
    rw [decodeBytes_escape hb] at hlast ⊢
    rw [List.cons_append, List.cons_append, List.cons_append, decodeBytes_escape hb,
      hbehind [b] cs hlast ih, List.cons_append]
  | stray c cs hstray ih =>
    have hstray' := stray_append hstray hlast rest
    rw [decodeBytes_stray hstray] at hlast ⊢
    rw [List.cons_append, decodeBytes_stray hstray', hbehind _ cs hlast ih, List.append_assoc]

-- ---------------------------------------------------------------------------
-- Addresses
-- ---------------------------------------------------------------------------

/-- The characters of ASCII that stand for themselves in an address: no controls, no space, and none of
`%`, `"`, `<`, `>`, the backtick and the braces. -/
def isPlain (c : Char) : Bool :=
  0x20 < c.toNat && c.toNat < 0x7F &&
    !(c = '%' || c = '"' || c = '<' || c = '>' || c = '\x60' || c = '\x7b' || c = '\x7d')

/-- A text of plain characters, and of percent signs that each begin an escape of two digits. -/
inductive IsAddress : List Char → Prop where
  | nil : IsAddress []
  | plain {c : Char} {cs : List Char} (is_plain : isPlain c = true) (later : IsAddress cs) :
      IsAddress (c :: cs)
  | escape {h l : Char} {b : UInt8} {cs : List Char} (is_escape : escapeByte? h l = some b)
      (later : IsAddress cs) : IsAddress ('%' :: h :: l :: cs)

/-- What holds of all characters of ASCII can be tried out. -/
theorem forall_ascii {P : Char → Prop} (h : ∀ n : Fin 128, P (Char.ofNat n)) (hc : c.toNat < 128) :
    P c := by
  have hn := h ⟨c.toNat, hc⟩
  rwa [Char.ofNat_toNat] at hn

theorem isPlain_iff : isPlain c = true ↔ c.toNat < 128 ∧ isReserved c.toUInt8 = false := by
  have hascii : ∀ c : Char, c.toNat < 128 → isPlain c = !isReserved c.toUInt8 := fun c =>
    forall_ascii (P := fun c => isPlain c = !isReserved c.toUInt8) (by decide +kernel)
  by_cases hc : c.toNat < 128
  · rw [hascii c hc]
    simp [hc]
  · refine iff_of_false (fun hplain => hc ?_) fun hboth => hc hboth.1
    simp only [isPlain, Bool.and_eq_true, decide_eq_true_eq] at hplain
    omega

theorem ne_percent_of_isPlain (h : isPlain c = true) : c ≠ '%' := by
  rintro rfl
  exact absurd h (by decide)

/-- A plain character stands for its own byte. -/
theorem decodeBytes_plain (h : isPlain c = true) (cs : List Char) :
    decodeBytes (c :: cs) = c.toUInt8 :: decodeBytes cs := by
  rw [decodeBytes_stray (stray_of_ne (ne_percent_of_isPlain h))]
  rcases Utf8.utf8EncodeChar_cases c with ⟨-, hbytes⟩ | ⟨hlarge, -⟩
  · rw [hbytes, List.singleton_append]
  · exact absurd (isPlain_iff.mp h).1 (by omega)

/-- An address is resolved apart from what comes after it. -/
theorem IsAddress.decodeBytes_append (h : IsAddress cs) (rest : List Char) :
    decodeBytes (cs ++ rest) = decodeBytes cs ++ decodeBytes rest := by
  induction h with
  | nil => rw [decodeBytes_nil, List.nil_append, List.nil_append]
  | plain hplain later ih =>
    rw [List.cons_append, decodeBytes_plain hplain, ih, decodeBytes_plain hplain, List.cons_append]
  | escape hb later ih =>
    rw [List.cons_append, List.cons_append, List.cons_append, decodeBytes_escape hb, ih,
      decodeBytes_escape hb, List.cons_append]

-- ---------------------------------------------------------------------------
-- What is written
-- ---------------------------------------------------------------------------

theorem hexValue?_upperDigit {n : Nat} (h : n < 16) : hexValue? (upperDigit n) = some n := by
  have hall : ∀ n : Fin 16, hexValue? (upperDigit n) = some n.val := by decide
  exact hall ⟨n, h⟩

/-- A byte is written as an escape for it, or as a plain character with it. -/
theorem encodeByte_cases (b : UInt8) :
    (isReserved b = true ∧ ∃ h l, encodeByte b = ['%', h, l] ∧ escapeByte? h l = some b) ∨
      ∃ c, encodeByte b = [c] ∧ isPlain c = true ∧ c.toUInt8 = b := by
  by_cases hb : isReserved b = true
  · refine .inl ⟨hb, _, _, if_pos hb,
      escapeByte?_eq_some_iff.mpr ⟨b.toNat / 16, b.toNat % 16, ?_, ?_, ?_⟩⟩
    · exact hexValue?_upperDigit (Nat.div_lt_of_lt_mul b.toNat_lt)
    · exact hexValue?_upperDigit (Nat.mod_lt _ (by decide))
    · rw [Nat.div_add_mod, UInt8.ofNat_toNat]
  · have hsmall : b.toNat < 128 := by
      simp only [isReserved, Bool.or_eq_true, decide_eq_true_eq, UInt8.lt_iff_toNat_lt,
        UInt8.le_iff_toNat_le, UInt8.reduceToNat] at hb
      omega
    have hvalue : (Char.ofNat b.toNat).toNat = b.toNat := by
      rw [Char.toNat_ofNat, if_pos (.inl (by omega))]
    have hbyte : (Char.ofNat b.toNat).toUInt8 = b := by
      rw [← UInt8.toNat_inj, Utf8.toNat_toUInt8 (by omega), hvalue]
    refine .inr ⟨_, if_neg hb, isPlain_iff.mpr ⟨by omega, ?_⟩, hbyte⟩
    rw [hbyte]
    simpa using hb

theorem decodeBytes_encodeByte (b : UInt8) (cs : List Char) :
    decodeBytes (encodeByte b ++ cs) = b :: decodeBytes cs := by
  rcases encodeByte_cases b with ⟨-, h, l, hwritten, hescape⟩ | ⟨c, hwritten, hplain, rfl⟩
  · rw [hwritten]
    exact decodeBytes_escape hescape cs
  · rw [hwritten]
    exact decodeBytes_plain hplain cs

theorem isAddress_encodeByte (b : UInt8) (h : IsAddress cs) : IsAddress (encodeByte b ++ cs) := by
  rcases encodeByte_cases b with ⟨-, _, _, hwritten, hescape⟩ | ⟨c, hwritten, hplain, -⟩
  · rw [hwritten]
    exact .escape hescape h
  · rw [hwritten]
    exact .plain hplain h

theorem decodeBytes_flatMap_encodeByte (bytes : List UInt8) :
    decodeBytes (bytes.flatMap encodeByte) = bytes := by
  induction bytes with
  | nil => exact decodeBytes_nil
  | cons b bytes ih => rw [List.flatMap_cons, decodeBytes_encodeByte, ih]

theorem isAddress_flatMap_encodeByte (bytes : List UInt8) : IsAddress (bytes.flatMap encodeByte) := by
  induction bytes with
  | nil => exact .nil
  | cons b bytes ih =>
    rw [List.flatMap_cons]
    exact isAddress_encodeByte b ih

/-- What is written has the bytes of the text it was made from. -/
theorem decodeBytes_encode (s : String) : decodeBytes (encode s).toList = Utf8.encode s.toList := by
  rw [encode, String.toList_ofList, decodeBytes_flatMap_encodeByte]

theorem decode_encode (s : String) : decode (encode s) = s := by
  rw [decode, decodeBytes_encode, Utf8.decodeLossy_encode, String.ofList_toList]

theorem isAddress_encode (s : String) : IsAddress (encode s).toList := by
  rw [encode, String.toList_ofList]
  exact isAddress_flatMap_encodeByte _

theorem encode_append (s t : String) : encode (s ++ t) = encode s ++ encode t := by
  rw [encode, encode, encode, String.toList_append, Utf8.encode_append, List.flatMap_append,
    String.ofList_append]

-- ---------------------------------------------------------------------------
-- Addresses that are written again
-- ---------------------------------------------------------------------------

/-- The digits that escapes are written with. -/
def isUpperDigit (c : Char) : Bool :=
  ('0' ≤ c && c ≤ '9') || ('A' ≤ c && c ≤ 'F')

/-- Whether an escape has its digits in upper case and stands for a byte that is reserved. -/
def isKept (h l : Char) : Bool :=
  isUpperDigit h && isUpperDigit l && (escapeByte? h l).any isReserved

/-- The digits of the escapes in an address. -/
def escapes : List Char → List (Char × Char)
  | '%' :: h :: l :: cs => (h, l) :: escapes cs
  | _ :: cs => escapes cs
  | [] => []

/-- Whether all escapes in an address have their digits in upper case and stand for bytes that are
reserved. -/
def IsKept (cs : List Char) : Prop :=
  ∀ digits ∈ escapes cs, isKept digits.1 digits.2 = true

instance (cs : List Char) : Decidable (IsKept cs) :=
  inferInstanceAs (Decidable (∀ digits ∈ escapes cs, isKept digits.1 digits.2 = true))

theorem escapes_cons_of_ne (hc : c ≠ '%') (cs : List Char) : escapes (c :: cs) = escapes cs := by
  rw [escapes]
  rintro h l rest rfl
  exact absurd rfl hc

theorem toNat_lt_of_hexValue? {c : Char} {n : Nat} (h : hexValue? c = some n) : c.toNat < 128 := by
  have hle : ∀ d : Char, c ≤ d → c.toNat ≤ d.toNat := fun d hd => UInt32.le_iff_toNat_le.mp hd
  unfold hexValue? at h
  split_ifs at h with hdigit hlower hupper
  · exact Nat.lt_of_le_of_lt (hle _ hdigit.2) (by decide)
  · exact Nat.lt_of_le_of_lt (hle _ hlower.2) (by decide)
  · exact Nat.lt_of_le_of_lt (hle _ hupper.2) (by decide)

theorem upperDigit_hexValue? {c : Char} {n : Nat} (h : hexValue? c = some n) :
    n < 16 ∧ (upperDigit n = c ↔ isUpperDigit c = true) :=
  forall_ascii
    (P := fun c => ∀ n ∈ hexValue? c, n < 16 ∧ (upperDigit n = c ↔ isUpperDigit c = true))
    (by decide +kernel) (toNat_lt_of_hexValue? h) n h

/-- An escape is written again as it was exactly if its digits are in upper case and its byte is reserved. -/
theorem encodeByte_eq_iff (hb : escapeByte? h l = some b) :
    encodeByte b = ['%', h, l] ↔ isKept h l = true := by
  by_cases hreserved : isReserved b = true
  · obtain ⟨high, low, hhigh, hlow, hbyte⟩ := escapeByte?_eq_some_iff.mp hb
    obtain ⟨hhigh', hupper⟩ := upperDigit_hexValue? hhigh
    obtain ⟨hlow', hupper'⟩ := upperDigit_hexValue? hlow
    have hvalue : b.toNat = 16 * high + low := by
      rw [← hbyte, UInt8.toNat_ofNat', Nat.mod_eq_of_lt (by omega)]
    have hdiv : b.toNat / 16 = high := by omega
    have hmod : b.toNat % 16 = low := by omega
    simp [encodeByte, isKept, hreserved, hb, hdiv, hmod, hupper, hupper']
  · simp [encodeByte, isKept, hreserved, hb]

theorem encodeByte_plain (h : isPlain c = true) : encodeByte c.toUInt8 = [c] := by
  obtain ⟨hascii, hreserved⟩ := isPlain_iff.mp h
  rw [encodeByte, hreserved, if_neg (by decide), Utf8.toNat_toUInt8 hascii, Char.ofNat_toNat]

/-- An address is the same when it is written again exactly if all its escapes are as they are written. -/
theorem flatMap_encodeByte_decodeBytes_iff (h : IsAddress cs) :
    (decodeBytes cs).flatMap encodeByte = cs ↔ IsKept cs := by
  induction h with
  | nil => simp [decodeBytes_nil, IsKept, escapes]
  | plain hplain later ih =>
    rw [decodeBytes_plain hplain, List.flatMap_cons, encodeByte_plain hplain, List.singleton_append,
      List.cons_inj_right, ih, IsKept, IsKept, escapes_cons_of_ne (ne_percent_of_isPlain hplain)]
  | @escape h l b cs hb later ih =>
    have hsplit : IsKept ('%' :: h :: l :: cs) ↔ isKept h l = true ∧ IsKept cs := by
      rw [IsKept, escapes, List.forall_mem_cons, IsKept]
    rw [decodeBytes_escape hb, List.flatMap_cons, hsplit, ← encodeByte_eq_iff hb, ← ih]
    rcases encodeByte_cases b with ⟨-, h', l', hwritten, -⟩ | ⟨c, hwritten, hplain, -⟩
    · simp [hwritten, and_assoc]
    · have hc := ne_percent_of_isPlain hplain
      simp [hwritten, hc]

/-- An address does not become longer when it is written again. -/
theorem length_flatMap_encodeByte_le (h : IsAddress cs) :
    ((decodeBytes cs).flatMap encodeByte).length ≤ cs.length := by
  induction h with
  | nil => simp [decodeBytes_nil]
  | plain hplain later ih =>
    rw [decodeBytes_plain hplain, List.flatMap_cons, encodeByte_plain hplain, List.singleton_append]
    exact Nat.succ_le_succ ih
  | @escape h l b cs hb later ih =>
    have hlength : (encodeByte b).length ≤ 3 := by
      rcases encodeByte_cases b with ⟨-, h', l', hwritten, -⟩ | ⟨c, hwritten, -⟩ <;> simp [hwritten]
    rw [decodeBytes_escape hb, List.flatMap_cons, List.length_append]
    simp only [List.length_cons]
    omega

/-- An address whose bytes are those of a text. -/
structure IsTextAddress (address : String) : Prop where
  is_address : IsAddress address.toList
  bytes_text : ∃ cs, decodeBytes address.toList = Utf8.encode cs

namespace IsTextAddress

variable {address : String}

theorem decodeBytes_eq (h : IsTextAddress address) :
    decodeBytes address.toList = Utf8.encode (decode address).toList := by
  obtain ⟨cs, hcs⟩ := h.bytes_text
  rw [toList_decode, hcs, Utf8.decodeLossy_encode]

theorem toList_encode_decode (h : IsTextAddress address) :
    (encode (decode address)).toList = (decodeBytes address.toList).flatMap encodeByte := by
  rw [h.decodeBytes_eq, encode, String.toList_ofList]

theorem encode_decode_iff (h : IsTextAddress address) :
    encode (decode address) = address ↔ IsKept address.toList := by
  rw [← flatMap_encodeByte_decodeBytes_iff h.is_address, ← h.toList_encode_decode, String.toList_inj]

theorem length_encode_decode_le (h : IsTextAddress address) :
    (encode (decode address)).toList.length ≤ address.toList.length := by
  rw [h.toList_encode_decode]
  exact length_flatMap_encodeByte_le h.is_address

end IsTextAddress

end Literate.Text.Percent
