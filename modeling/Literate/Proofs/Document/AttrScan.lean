import Literate.Proofs.Document.AttrGrammar
import Literate.Proofs.Text.BytePlaces

/-!
# Reading a group by its bytes

A group can also be read without taking the text apart: a scan keeps the byte that it has come to, looks at
single bytes to tell what stands there, searches for the next equals sign or quote, and cuts words, keys
and values out of the text. `Scans` is a run of that scan, pass after pass; a pass has no outcome where it
would cut inside a character (`itemAt?` is then `none`), and neither has the run.

That never happens. Every place the scan comes to is one between characters, and from there a pass finds
what the reader finds (`itemAt?_agrees`). So each text has exactly one run, which ends, and ends with what
`readGroup?` answers (`scansGroup_iff`).

Main result: `splitGroup?_grammar`.
-/

namespace Literate.Attr

open Text.Utf8 (encode byteSize from? slice? offsetOf? from?_add from?_succ slice?_of_from?)

-- ---------------------------------------------------------------------------
-- The scan
-- ---------------------------------------------------------------------------

/-- A space, tab, line feed, form feed or carriage return. -/
def isBlankByte (b : UInt8) : Bool :=
  b = ' '.toUInt8 || b = '\t'.toUInt8 || b = '\n'.toUInt8 || b = '\x0C'.toUInt8 || b = '\r'.toUInt8

/-- The first place from `place` on that holds no blank. -/
def skipBlanks (body : List Char) (place : Nat) : Nat :=
  place + (((encode body).drop place).takeWhile isBlankByte).length

/-- The word at a place. -/
def wordAt? (body : List Char) (place : Nat) : Option (List Char) :=
  (from? place body).bind fun rest => slice? 0 (byteSize (rest.takeWhile isWordChar)) rest

/-- The item that a mark at a place makes with the word behind it, and the place behind that. -/
def nameAt? (item : List Char → Item) (body : List Char) (place : Nat) :
    Option (Option (Item × Nat)) :=
  (wordAt? body (place + 1)).map fun word =>
    if word.isEmpty then none else some (item word, place + 1 + byteSize word)

/-- The value at a place and the place behind it, if it is not a quote that none follows. -/
def valueAt? (body : List Char) (place : Nat) : Option (Option (List Char × Nat)) :=
  if (encode body)[place]? = some '"'.toUInt8 then
    (from? (place + 1) body).bind fun rest =>
      match offsetOf? '"' rest with
      | none => some none
      | some offset =>
        let close := offset + place + 1
        (slice? (place + 1) close body).map fun value => some (value, close + 1)
  else
    (wordAt? body place).map fun value => some (value, place + byteSize value)

/-- The pair at a place and the place behind it. -/
def pairAt? (body : List Char) (place : Nat) : Option (Option (Item × Nat)) :=
  (from? place body).bind fun rest =>
    match offsetOf? '=' rest with
    | none => some none
    | some offset =>
      let keyEnd := offset + place
      (slice? place keyEnd body).bind fun key =>
        if key.isEmpty || !key.all isWordChar then some none
        else (valueAt? body (keyEnd + 1)).map fun found =>
          found.map fun (value, next) => (.pair key value, next)

/-- One pass: the item behind the blanks at a place, or the closing brace, and the place behind it. The
inner answer is `none` where no item stands; there is no answer at all if the pass cuts inside a
character. -/
def itemAt? (body : List Char) (place : Nat) : Option (Option (Item × Nat)) :=
  let place := skipBlanks body place
  match (encode body)[place]? with
  | none => some none
  | some b =>
    if b = '\x7d'.toUInt8 then some (some (.close, place + 1))
    else if b = '.'.toUInt8 then nameAt? .class body place
    else if b = '#'.toUInt8 then nameAt? .id body place
    else pairAt? body place

/-- A run of the scan from a place on, with the attributes so far, up to its answer. -/
inductive Scans (body : List Char) : Attr → Nat → Option (Attr × List Char) → Prop where
  | fails {attr : Attr} {place : Nat} (pass : itemAt? body place = some none) :
      Scans body attr place none
  | closes {attr : Attr} {place next : Nat} {rest : List Char}
      (pass : itemAt? body place = some (some (.close, next))) (rest_eq : from? next body = some rest) :
      Scans body attr place (some (attr, rest))
  | passes {attr : Attr} {place next : Nat} {item : Item} {answer : Option (Attr × List Char)}
      (pass : itemAt? body place = some (some (item, next))) (goes_on : item ≠ .close)
      (later : Scans body (attr.addItem item) next answer) : Scans body attr place answer

/-- A run of the scan over a text: it begins behind the opening brace. -/
inductive ScansGroup : List Char → Option (Attr × List Char) → Prop where
  | unopened {cs : List Char} (unopened : cs.head? ≠ some '\x7b') : ScansGroup cs none
  | opened {body : List Char} {answer : Option (Attr × List Char)}
      (run : Scans body empty 0 answer) : ScansGroup ('\x7b' :: body) answer

-- ---------------------------------------------------------------------------
-- One pass
-- ---------------------------------------------------------------------------

theorem isBlankByte_toUInt8 {c : Char} (hc : c.toNat < 128) :
    isBlankByte c.toUInt8 = Text.isAsciiBlank c := by
  rw [isBlankByte, Text.isAsciiBlank]
  simp only [Text.Utf8.toUInt8_inj hc (show ' '.toNat < 128 by decide),
    Text.Utf8.toUInt8_inj hc (show '\t'.toNat < 128 by decide),
    Text.Utf8.toUInt8_inj hc (show '\n'.toNat < 128 by decide),
    Text.Utf8.toUInt8_inj hc (show '\x0C'.toNat < 128 by decide),
    Text.Utf8.toUInt8_inj hc (show '\r'.toNat < 128 by decide)]

theorem isBlankByte_of_le {b : UInt8} (hb : 128 ≤ b.toNat) : isBlankByte b = false := by
  have hne : ∀ c : Char, c.toNat < 128 → b ≠ c.toUInt8 := by
    rintro c hc rfl
    rw [Text.Utf8.toNat_toUInt8 hc] at hb
    omega
  simp only [isBlankByte, Bool.or_eq_false_iff, decide_eq_false_iff_not]
  exact ⟨⟨⟨⟨hne _ (by decide), hne _ (by decide)⟩, hne _ (by decide)⟩, hne _ (by decide)⟩,
    hne _ (by decide)⟩

theorem isAsciiBlank_of_le {c : Char} (hc : 128 ≤ c.toNat) : Text.isAsciiBlank c = false := by
  by_contra h
  rw [Bool.not_eq_false] at h
  simp only [Text.isAsciiBlank, Bool.or_eq_true, decide_eq_true_eq] at h
  rcases h with (((rfl | rfl) | rfl) | rfl) | rfl <;> exact absurd hc (by decide)

/-- The blanks among the bytes are those among the characters. -/
theorem takeWhile_isBlankByte (cs : List Char) :
    (encode cs).takeWhile isBlankByte = encode (cs.takeWhile Text.isAsciiBlank) := by
  induction cs with
  | nil => rfl
  | cons c cs ih =>
    rw [Text.Utf8.encode_cons]
    rcases Text.Utf8.utf8EncodeChar_cases c with ⟨hc, hbytes⟩ | ⟨hc, b, bytes, hbytes, hb⟩
    · rw [hbytes, List.singleton_append, List.takeWhile_cons, List.takeWhile_cons,
        isBlankByte_toUInt8 hc, ih]
      split
      · rw [Text.Utf8.encode_cons, hbytes, List.singleton_append]
      · rfl
    · rw [hbytes, List.cons_append, List.takeWhile_cons, List.takeWhile_cons, isBlankByte_of_le hb,
        isAsciiBlank_of_le hc]
      rfl

section

variable {body cs : List Char} {place : Nat}

/-- The scan skips the blanks that the reader drops. -/
theorem from?_skipBlanks (h : from? place body = some cs) :
    from? (skipBlanks body place) body = some (cs.dropWhile Text.isAsciiBlank) := by
  rw [skipBlanks, Text.Utf8.drop_encode h, takeWhile_isBlankByte, Text.Utf8.length_encode]
  refine from?_add ?_
  rwa [List.takeWhile_append_dropWhile]

/-- The word at a place is cut out of the text as a whole. -/
theorem wordAt?_of_from? (h : from? place body = some cs) :
    wordAt? body place = some (wordOf cs) ∧
      from? (place + byteSize (wordOf cs)) body = some (cs.drop (wordOf cs).length) := by
  have hwhole : from? 0 cs = some (wordOf cs ++ cs.drop (wordOf cs).length) := by
    rw [wordOf_append_drop, Text.Utf8.from?_zero]
  have hslice := slice?_of_from? hwhole
  rw [Nat.zero_add] at hslice
  refine ⟨by rw [wordAt?, h, Option.bind_some]; exact hslice, from?_add ?_⟩
  rwa [wordOf_append_drop]

/-- What a pass finds is what the reader finds: the same, and the place where the reader goes on. -/
def Agrees {α : Type} (body : List Char) (found : Option (α × Nat)) (read : Option (α × List Char)) :
    Prop :=
  Option.Rel (fun f r => f.1 = r.1 ∧ from? f.2 body = some r.2) found read

theorem Agrees.map {α β : Type} {found : Option (α × Nat)} {read : Option (α × List Char)}
    (h : Agrees body found read) (f : α → β) :
    Agrees body (found.map fun (a, next) => (f a, next)) (read.map fun (a, rest) => (f a, rest)) := by
  cases h with
  | none => exact .none
  | some hsame => exact .some ⟨congrArg f hsame.1, hsame.2⟩

theorem nameAt?_agrees (item : List Char → Item) {mark : Char} (hmark : mark.utf8Size = 1)
    (h : from? place body = some (mark :: cs)) :
    ∃ found, nameAt? item body place = some found ∧
      Agrees body found
        (if (wordOf cs).isEmpty then none else some (item (wordOf cs), cs.drop (wordOf cs).length)) := by
  have hbehind := from?_succ hmark h
  obtain ⟨hword, hnext⟩ := wordAt?_of_from? hbehind
  rw [nameAt?, hword, Option.map_some]
  refine ⟨_, rfl, ?_⟩
  by_cases hempty : (wordOf cs).isEmpty = true
  · rw [if_pos hempty, if_pos hempty]
    exact .none
  · rw [if_neg hempty, if_neg hempty]
    exact .some ⟨rfl, hnext⟩

/-- A value between quotes, or a word. -/
theorem valueAt?_agrees (h : from? place body = some cs) :
    ∃ found, valueAt? body place = some found ∧ Agrees body found (readValue? cs) := by
  have hbyte := Text.Utf8.getElem?_encode h
  have hhead := Text.Utf8.head?_encode_eq_iff (d := '"') (by decide) cs
  rw [← hbyte] at hhead
  by_cases hquote : cs.head? = some '"'
  · obtain ⟨cs', rfl⟩ : ∃ cs', cs = '"' :: cs' := List.head?_eq_some_iff.mp hquote
    have hbehind : from? (place + 1) body = some cs' := from?_succ rfl h
    rw [valueAt?, if_pos (hhead.mpr rfl), hbehind, Option.bind_some]
    by_cases hmem : '"' ∈ cs'
    · obtain ⟨value, rest, rfl, hvalue⟩ := List.eq_append_cons_of_mem hmem
      have hslice := slice?_of_from? hbehind
      have hclose : byteSize value + place + 1 = place + 1 + byteSize value := by omega
      obtain ⟨after, hread, hafter⟩ := readValue?_quoted value rest
      rw [hread, hafter hvalue, takeWhile_ne_quote hvalue, Text.Utf8.offsetOf?_append hvalue]
      simp only [hclose, hslice]
      exact ⟨_, rfl, .some ⟨rfl, from?_succ rfl (from?_add hbehind)⟩⟩
    · have hread : readValue? ('"' :: cs') = none := by
        rw [readValue?, List.dropWhile_eq_nil_iff.mpr]
        exact fun c hc => decide_eq_true fun heq => hmem (heq ▸ hc)
      rw [hread, offsetOf?, if_neg hmem]
      exact ⟨_, rfl, .none⟩
  · have hread : readValue? cs = some (wordOf cs, cs.drop (wordOf cs).length) := by
      rw [readValue?.eq_def]
      split
      · exact absurd rfl hquote
      · rfl
    obtain ⟨hword, hnext⟩ := wordAt?_of_from? h
    rw [valueAt?, if_neg (mt hhead.mp hquote), hword, hread]
    exact ⟨_, rfl, .some ⟨rfl, hnext⟩⟩

/-- What begins with no mark is a pair or nothing. -/
theorem pairAt?_agrees {c : Char} (hclose : c ≠ '\x7d') (hdot : c ≠ '.') (hsign : c ≠ '#')
    (h : from? place body = some (c :: cs)) :
    ∃ found, pairAt? body place = some found ∧ Agrees body found (readItem? (c :: cs)) := by
  rw [pairAt?, h, Option.bind_some, readItem?_cons hclose hdot hsign]
  by_cases hmem : '=' ∈ c :: cs
  · obtain ⟨key, afterKey, hsplit, hkey⟩ := List.eq_append_cons_of_mem hmem
    rw [hsplit] at h ⊢
    have htake : (key ++ '=' :: afterKey).takeWhile (· ≠ '=') = key :=
      Text.Utf8.takeWhile_ne_append hkey
    have hslice := slice?_of_from? h
    have hafter : from? (place + byteSize key + 1) body = some afterKey :=
      from?_succ rfl (from?_add h)
    obtain ⟨found, hfound, hagrees⟩ := valueAt?_agrees hafter
    rw [Text.Utf8.offsetOf?_append hkey, htake, List.drop_left]
    simp only [Nat.add_comm (byteSize key) place, hslice, Option.bind_some, hfound]
    by_cases hbad : (key.isEmpty || !key.all isWordChar) = true
    · rw [if_pos hbad, if_pos hbad]
      exact ⟨_, rfl, .none⟩
    · rw [if_neg hbad, if_neg hbad]
      exact ⟨_, rfl, hagrees.map (Item.pair key)⟩
  · have htake : (c :: cs).takeWhile (· ≠ '=') = c :: cs :=
      List.takeWhile_eq_self_iff.mpr fun d hd => decide_eq_true fun heq => hmem (heq ▸ hd)
    simp only [offsetOf?, if_neg hmem, htake, List.drop_length]
    exact ⟨_, rfl, .none⟩

/-- **One pass agrees with the reader**, and cuts nowhere but between characters. -/
theorem itemAt?_agrees (h : from? place body = some cs) :
    ∃ found, itemAt? body place = some found ∧
      Agrees body found (readItem? (cs.dropWhile Text.isAsciiBlank)) := by
  have hskip := from?_skipBlanks h
  have hbyte := Text.Utf8.getElem?_encode hskip
  rw [itemAt?]
  cases hrest : cs.dropWhile Text.isAsciiBlank with
  | nil =>
    rw [hrest] at hbyte
    simp only [hbyte]
    exact ⟨_, rfl, .none⟩
  | cons c rest =>
    rw [hrest] at hskip hbyte
    -- The marks are of one byte each, so the first byte tells them apart as the first character does.
    have hmark : ∀ {d : Char}, d.toNat < 128 →
        ((encode (c :: rest)).head? = some d.toUInt8 ↔ c = d) := by
      intro d hd
      rw [Text.Utf8.head?_encode_eq_iff hd, List.head?_cons, Option.some.injEq]
    obtain ⟨b, hb⟩ : ∃ b, (encode (c :: rest)).head? = some b :=
      Option.ne_none_iff_exists'.mp fun hnone =>
        List.cons_ne_nil c rest ((Text.Utf8.head?_encode_eq_none_iff _).mp hnone)
    simp only [hb, Option.some.injEq] at hmark
    rw [hb] at hbyte
    simp only [hbyte]
    split_ifs with hclose hdot hsign
    · obtain rfl := (hmark (by decide)).mp hclose
      exact ⟨_, rfl, .some ⟨rfl, from?_succ rfl hskip⟩⟩
    · obtain rfl := (hmark (by decide)).mp hdot
      exact nameAt?_agrees .class (by decide) hskip
    · obtain rfl := (hmark (by decide)).mp hsign
      exact nameAt?_agrees .id (by decide) hskip
    · exact pairAt?_agrees (mt (hmark (by decide)).mpr hclose) (mt (hmark (by decide)).mpr hdot)
        (mt (hmark (by decide)).mpr hsign) hskip

end

-- ---------------------------------------------------------------------------
-- Runs
-- ---------------------------------------------------------------------------

/-- From a place between characters the scan comes to the answer of the reader. -/
theorem Scans.readItems {body cs : List Char} {place : Nat} (attr : Attr)
    (h : from? place body = some cs) : Scans body attr place (readItems attr cs) := by
  obtain ⟨found, hpass, hagrees⟩ := itemAt?_agrees h
  fun_induction Attr.readItems attr cs generalizing place found with
  | case1 attr cs hread =>
    rw [hread] at hagrees
    cases hagrees
    exact .fails hpass
  | case2 attr cs rest hread =>
    rw [hread] at hagrees
    cases hagrees with
    | @some found _ hsame =>
      obtain ⟨item, next⟩ := found
      obtain ⟨rfl, hnext⟩ := hsame
      exact .closes hpass hnext
  | case3 attr cs item rest hclose hread ih =>
    rw [hread] at hagrees
    cases hagrees with
    | @some found _ hsame =>
      obtain ⟨item', next⟩ := found
      obtain ⟨rfl, hnext⟩ := hsame
      obtain ⟨later, hlater, hagree⟩ := itemAt?_agrees hnext
      exact .passes hpass hclose (ih hnext later hlater hagree)

/-- A scan has one course. -/
theorem Scans.unique {body : List Char} {attr : Attr} {place : Nat}
    {answer other : Option (Attr × List Char)} (h : Scans body attr place answer)
    (hother : Scans body attr place other) : answer = other := by
  induction h with
  | fails hpass =>
    cases hother with
    | fails => rfl
    | closes hpass' => cases hpass.symm.trans hpass'
    | passes hpass' => cases hpass.symm.trans hpass'
  | closes hpass hrest =>
    cases hother with
    | fails hpass' => cases hpass.symm.trans hpass'
    | closes hpass' hrest' =>
      cases hpass.symm.trans hpass'
      rw [Option.some.inj (hrest.symm.trans hrest')]
    | passes hpass' hitem =>
      cases hpass.symm.trans hpass'
      exact absurd rfl hitem
  | passes hpass hitem later ih =>
    cases hother with
    | fails hpass' => cases hpass.symm.trans hpass'
    | closes hpass' =>
      cases hpass.symm.trans hpass'
      exact absurd rfl hitem
    | passes hpass' hitem' later' =>
      cases hpass.symm.trans hpass'
      exact ih later'

/-- The scan of every text ends, without a cut inside a character, with the answer of the reader. -/
theorem scansGroup_iff {cs : List Char} {answer : Option (Attr × List Char)} :
    ScansGroup cs answer ↔ answer = readGroup? cs := by
  constructor
  · rintro (hne | hrun)
    · rw [readGroup?.eq_def]
      split
      · exact absurd rfl hne
      · rfl
    · exact hrun.unique (.readItems empty (Text.Utf8.from?_zero _))
  · rintro rfl
    rw [readGroup?.eq_def]
    split
    · exact .opened (.readItems empty (Text.Utf8.from?_zero _))
    · rename_i hne
      refine .unopened fun hhead => ?_
      obtain ⟨body, rfl⟩ := List.head?_eq_some_iff.mp hhead
      exact hne body rfl

/-- A group is split off the front of a text exactly if the grammar knows it, with the attributes of its
items and what follows its closing brace. A scan by bytes comes to the same end on every text. -/
theorem splitGroup?_grammar (text : String) :
    (∀ attr rest, splitGroup? text = some (attr, rest) ↔
      ∃ items, IsGroup items text.toList rest.toList ∧ attr = ofItems items) ∧
    ∀ answer, ScansGroup text.toList answer ↔
      answer = (splitGroup? text).map fun (attr, rest) => (attr, rest.toList) := by
  refine ⟨fun attr rest => ?_, fun answer => ?_⟩
  · rw [← readGroup?_eq_some_iff, splitGroup?, Option.map_eq_some_iff]
    constructor
    · rintro ⟨⟨attr', rest'⟩, hread, hpair⟩
      cases hpair
      rw [hread, String.toList_ofList]
    · intro hread
      exact ⟨_, hread, by simp⟩
  · rw [scansGroup_iff, splitGroup?, Option.map_map]
    cases readGroup? text.toList <;> simp

end Literate.Attr
