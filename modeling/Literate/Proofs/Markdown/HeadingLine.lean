import Literate.Proofs.Document.AttrText
import Literate.Proofs.Markdown.TextLine
import Literate.Proofs.Text.Runs

/-!
# Lines of headings

A heading is written on one line: number signs, a phrase, and its attributes if it has any. What reads
such a line looks at its end first. A group there is taken off, and of the words in it those are names
that an identifier or a class is made of (`headingAttr_written`); number signs at the end of what is left
would be taken off too, so a phrase may not end in one.

Main result: `readHeading_written`. A heading with names only is read back from its line.
-/

namespace Literate.Markdown

-- ---------------------------------------------------------------------------
-- Words
-- ---------------------------------------------------------------------------

/-- Words with blanks between them are the runs between the blanks. -/
theorem splitRuns_intercalate {p : Char → Bool} (hblank : p ' ' = true) {words : List (List Char)}
    (hne : ∀ word ∈ words, word ≠ []) (hwords : ∀ word ∈ words, ∀ c ∈ word, p c = false) :
    Text.splitRuns p [] ([' '].intercalate words) = words := by
  induction words with
  | nil => rfl
  | cons word words ih =>
    have hword := hwords word (List.mem_cons_self ..)
    have hnot_empty : ¬(word.reverse.isEmpty = true) := by
      simpa using hne word (List.mem_cons_self ..)
    have hrest := ih (fun other hother => hne other (List.mem_cons_of_mem word hother))
      (fun other hother => hwords other (List.mem_cons_of_mem word hother))
    cases words with
    | nil =>
      rw [List.intercalate_singleton, ← List.append_nil word, Text.splitRuns_append hword, List.append_nil,
        List.append_nil, Text.splitRuns, if_neg hnot_empty, List.reverse_reverse]
    | cons next words =>
      rw [List.intercalate_cons_cons, List.append_assoc, Text.splitRuns_append hword, List.append_nil,
        List.singleton_append, Text.splitRuns, if_pos hblank, if_neg hnot_empty, hrest,
        List.reverse_reverse]

/-- What stands in words with separators between them stands in a word or is a separator. -/
theorem mem_intercalate {sep c : Char} {words : List (List Char)} (h : c ∈ [sep].intercalate words) :
    (∃ word ∈ words, c ∈ word) ∨ c = sep := by
  induction words with
  | nil => cases h
  | cons word words ih =>
    cases words with
    | nil =>
      rw [List.intercalate_singleton] at h
      exact .inl ⟨word, List.mem_singleton_self word, h⟩
    | cons next words =>
      rw [List.intercalate_cons_cons, List.append_assoc, List.mem_append, List.singleton_append,
        List.mem_cons] at h
      rcases h with h | rfl | h
      · exact .inl ⟨word, List.mem_cons_self .., h⟩
      · exact .inr rfl
      · rcases ih h with ⟨other, hother, hc⟩ | hc
        · exact .inl ⟨other, List.mem_cons_of_mem word hother, hc⟩
        · exact .inr hc

-- ---------------------------------------------------------------------------
-- Attributes
-- ---------------------------------------------------------------------------

/-- A character that a name may hold in the group at the end of a heading. -/
def isNameChar (c : Char) : Bool :=
  !(Text.isAsciiBlank c || c = '\x7b' || c = '\x7d' || c = '<' || c = '>' || c = '\\')

/-- Attributes that a heading can have: an identifier and classes. -/
structure HasNames (attr : Attr) : Prop where
  no_pairs : attr.pairs = []
  id : ∀ c ∈ attr.id.toList, isNameChar c = true
  classes : ∀ name ∈ attr.classes, name ≠ "" ∧ ∀ c ∈ name.toList, isNameChar c = true

open Attr (Item)

/-- What is written in the group of attributes. -/
def groupText (attr : Attr) : List Char :=
  [' '].intercalate (attr.itemList.map Item.written)

theorem toList_show_group (attr : Attr) :
    attr.show.toList = '\x7b' :: (groupText attr ++ ['\x7d']) :=
  Attr.toList_show attr

/-- The items of attributes that are names: an identifier or a class, and not an empty one. -/
theorem HasNames.of_mem_itemList {attr : Attr} (h : HasNames attr) {item : Item}
    (hitem : item ∈ attr.itemList) : ∃ name : List Char, name ≠ [] ∧
      (∀ c ∈ name, isNameChar c = true) ∧ (item = .id name ∨ item = .class name) := by
  rw [Attr.itemList, Attr.nameItems, h.no_pairs, List.map_nil, List.append_nil, List.mem_append] at hitem
  rcases hitem with hitem | hitem
  · split at hitem
    · cases hitem
    · rename_i hid
      rw [List.mem_singleton] at hitem
      refine ⟨attr.id.toList, ?_, h.id, .inl hitem⟩
      simpa [String.isEmpty_iff] using hid
  · obtain ⟨name, hname, rfl⟩ := List.mem_map.1 hitem
    obtain ⟨hne, hchars⟩ := h.classes name hname
    refine ⟨name.toList, ?_, hchars, .inr rfl⟩
    simpa using hne

theorem one_lt_utf8ByteSize (c d : Char) (cs : List Char) :
    1 < (String.ofList (c :: d :: cs)).utf8ByteSize := by
  have hc := c.utf8Size_pos
  have hd := d.utf8Size_pos
  rw [String.ofList_cons, String.ofList_cons, String.utf8ByteSize_append, String.utf8ByteSize_append,
    String.utf8ByteSize_singleton, String.utf8ByteSize_singleton]
  omega

theorem addWord_written (attr : Attr) {name : List Char} (hname : name ≠ []) {item : Item}
    (hitem : item = .id name ∨ item = .class name) :
    headingAttr.addWord attr item.written = attr.addItem item := by
  obtain ⟨c, cs, rfl⟩ := List.exists_cons_of_ne_nil hname
  rcases hitem with rfl | rfl
  · have hsize := one_lt_utf8ByteSize '#' c cs
    rw [Item.written, headingAttr.addWord, if_neg (by omega)]
    rfl
  · have hsize := one_lt_utf8ByteSize '.' c cs
    rw [Item.written, headingAttr.addWord, if_neg (by omega)]
    rfl

theorem isAsciiBlank_of_isNameChar {c : Char} (h : isNameChar c = true) :
    Text.isAsciiBlank c = false := by
  simp only [isNameChar, Bool.not_eq_true', Bool.or_eq_false_iff] at h
  exact h.1.1.1.1.1

/-- A written item of names is not empty and has no blank in it. -/
theorem HasNames.written {attr : Attr} (h : HasNames attr) {word : List Char}
    (hword : word ∈ attr.itemList.map Item.written) :
    word ≠ [] ∧ ∀ c ∈ word, c = '#' ∨ c = '.' ∨ isNameChar c = true := by
  obtain ⟨item, hitem, rfl⟩ := List.mem_map.1 hword
  obtain ⟨name, -, hchars, hitem⟩ := h.of_mem_itemList hitem
  rcases hitem with rfl | rfl
  · refine ⟨List.cons_ne_nil _ _, fun c hc => ?_⟩
    rcases List.mem_cons.1 hc with rfl | hc
    · exact .inl rfl
    · exact .inr (.inr (hchars c hc))
  · refine ⟨List.cons_ne_nil _ _, fun c hc => ?_⟩
    rcases List.mem_cons.1 hc with rfl | hc
    · exact .inr (.inl rfl)
    · exact .inr (.inr (hchars c hc))

/-- The names in a group are read back. -/
theorem headingAttr_written {attr : Attr} (h : HasNames attr) : headingAttr (groupText attr) = attr := by
  have hwords : Text.splitRuns Text.isAsciiBlank [] (groupText attr) =
      attr.itemList.map Item.written := by
    refine splitRuns_intercalate (by decide) (fun word hword => (h.written hword).1) ?_
    intro word hword c hc
    rcases (h.written hword).2 c hc with rfl | rfl | hname
    · rfl
    · rfl
    · exact isAsciiBlank_of_isNameChar hname
  have hitems : ∀ (items : List Item) (before : Attr), (∀ item ∈ items, item ∈ attr.itemList) →
      (items.map Item.written).foldl headingAttr.addWord before = items.foldl Attr.addItem before := by
    intro items
    induction items with
    | nil => intro before _; rfl
    | cons item items ih =>
      intro before hmem
      obtain ⟨name, hname, -, hitem⟩ := h.of_mem_itemList (hmem item (List.mem_cons_self ..))
      rw [List.map_cons, List.foldl_cons, List.foldl_cons, addWord_written before hname hitem]
      exact ih _ fun other hother => hmem other (List.mem_cons_of_mem item hother)
  rw [headingAttr, hwords, hitems _ _ fun _ hitem => hitem]
  exact Attr.foldl_itemList attr

-- ---------------------------------------------------------------------------
-- The end of a heading
-- ---------------------------------------------------------------------------

/-- The group behind the text of a heading, nothing if there are no attributes. -/
def groupBehind (attr : Attr) : List Char :=
  if attr.isEmpty then [] else ' ' :: attr.show.toList

theorem isGroupChar_of_mem {attr : Attr} (hattr : HasNames attr) :
    ∀ c ∈ groupText attr, (!(c = '\x7b' || c = '\x7d' || c = '<' || c = '>' || c = '\\' ||
      isLineEnd c)) = true := by
  intro c hc
  rcases mem_intercalate hc with ⟨word, hword, hmem⟩ | rfl
  · rcases (hattr.written hword).2 c hmem with rfl | rfl | hname
    · rfl
    · rfl
    · have hblank := isAsciiBlank_of_isNameChar hname
      simp only [isNameChar, Bool.not_eq_true', Bool.or_eq_false_iff, decide_eq_false_iff_not] at hname
      simp only [Text.isAsciiBlank, Bool.or_eq_false_iff, decide_eq_false_iff_not] at hblank
      simp [hname, isLineEnd, hblank]
  · rfl

/-- A line without a group at its end is all text. -/
theorem splitHeadingAttr_text {cs : List Char} (h : IsTextLine cs) (hbrace : cs.getLast? ≠ some '\x7d')
    {lineEnd : List Char}
    (hend : ∀ c ∈ lineEnd, isLineEnd c = true) : splitHeadingAttr (cs ++ lineEnd) = (cs ++ lineEnd, none) := by
  have hlast : ∀ c ∈ cs.getLast?, (isLineEnd c || c = ' ' || c = '\t') = false := by
    intro c hc
    obtain ⟨hspace, htab⟩ := ne_blank_of_isGap (h.last c hc)
    simp [(h.inside c (List.mem_of_mem_getLast? hc)).1, hspace, htab]
  have hbody := Text.dropEndWhile_append lineEnd hlast (fun c hc => by simp [hend c hc])
  rw [splitHeadingAttr, hbody]
  cases hreverse : cs.reverse with
  | nil => rfl
  | cons c back =>
    have hc : c ≠ '\x7d' := by
      rintro rfl
      rw [← List.head?_reverse, hreverse] at hbrace
      exact hbrace rfl
    simp [hc]

/-- A group at the end of a line is taken off. -/
theorem splitHeadingAttr_group (cs : List Char) {attr : Attr} (hattr : HasNames attr) {lineEnd : List Char}
    (hend : ∀ c ∈ lineEnd, isLineEnd c = true) :
    splitHeadingAttr (cs ++ ' ' :: attr.show.toList ++ lineEnd) = (cs ++ [' '], some attr) := by
  have hgroup := fun c (hc : c ∈ (groupText attr).reverse) =>
    isGroupChar_of_mem hattr c (List.mem_reverse.1 hc)
  have hlast : ∀ c ∈ (cs ++ ' ' :: attr.show.toList).getLast?,
      (isLineEnd c || c = ' ' || c = '\t') = false := by
    intro c hc
    rw [toList_show_group, ← List.cons_append, ← List.cons_append, ← List.append_assoc,
      List.getLast?_concat] at hc
    cases hc
    rfl
  have hbody := Text.dropEndWhile_append lineEnd hlast (fun c hc => by simp [hend c hc])
  have hreverse : (cs ++ ' ' :: attr.show.toList).reverse =
      '\x7d' :: ((groupText attr).reverse ++ '\x7b' :: ' ' :: cs.reverse) := by
    rw [toList_show_group]
    simp
  rw [splitHeadingAttr, hbody, hreverse]
  simp only [List.dropWhile_append_of_pos hgroup, List.takeWhile_append_of_pos hgroup]
  simp [headingAttr_written hattr]

/-- Number signs are looked for only where the text ends. -/
theorem closingSigns_text {cs ds : List Char} (h : IsTextLine cs) (hsign : cs.getLast? ≠ some '#')
    (hds : ∀ c ∈ ds, (isLineEnd c || c = ' ') = true) : closingSigns (cs ++ ds) = cs.length := by
  have hblank : ∀ c ∈ cs.getLast?, (isLineEnd c || c = ' ') = false := by
    intro c hc
    simp [(h.inside c (List.mem_of_mem_getLast? hc)).1, (ne_blank_of_isGap (h.last c hc)).1]
  have hbody := Text.dropEndWhile_append ds hblank hds
  have hbare : Text.dropEndWhile (· = '#') cs = cs := by
    have hlast : ∀ c ∈ cs.getLast?, decide (c = '#') = false := fun c hc =>
      decide_eq_false fun heq => hsign (heq ▸ hc)
    have hdrop := Text.dropEndWhile_append [] hlast (by simp)
    rwa [List.append_nil] at hdrop
  have htext : Text.dropEndWhile (· = ' ') cs = cs := by
    have hlast : ∀ c ∈ cs.getLast?, decide (c = ' ') = false := fun c hc =>
      decide_eq_false (ne_blank_of_isGap (h.last c hc)).1
    have hdrop := Text.dropEndWhile_append [] hlast (by simp)
    rwa [List.append_nil] at hdrop
  obtain ⟨c, rest, hcs, -⟩ := h.first
  have hne : ¬cs.isEmpty = true := by simp [hcs]
  rw [closingSigns, hbody, hbare, htext, if_neg hne, if_neg (Nat.lt_irrefl _)]

/-- Tokens that end where the text ends are not cut. -/
theorem cutLast_rawOf (tokens : List Token) (ds : List Char) :
    cutLast (rawOf tokens ++ ds) (rawOf tokens).length tokens = tokens := by
  unfold cutLast
  split
  · rename_i chars hlast
    obtain ⟨front, rfl⟩ := List.getLast?_eq_some_iff.1 hlast
    have hraw : rawOf (front ++ [.text chars]) = rawOf front ++ chars := by
      rw [rawOf_append]
      simp [rawOf, Token.raw]
    rw [hraw, List.dropLast_concat, List.append_assoc]
    dsimp only
    rw [List.drop_left, List.length_append, Nat.add_sub_cancel_left, List.take_left]
  · rfl

/-- What is read of a heading, given how its line is split. -/
theorem readHeading_of_split {line : TextLine} (h : line.Fair)
    (hsign : (spelling line.inlines).getLast? ≠ some '#') {behind rest : List Char}
    {found : Option Attr} (hbehind : '\n' ∉ behind) (hspace : ∀ c ∈ behind.head?, c = ' ')
    {lineEnd tail : List Char} (hend : EndsLine lineEnd tail)
    (hsplit : splitHeadingAttr (spelling line.inlines ++ behind ++ lineEnd) =
      (spelling line.inlines ++ rest, found)) (hrest : rest = lineEnd ∨ rest = [' ']) :
    ∃ tokens, readHeading (' ' :: (spelling line.inlines ++ behind ++ (lineEnd ++ tail))) =
        (tokens, found.getD Attr.empty, tail) ∧ Spells false false false tokens [] line.inlines := by
  have htext := h.isTextLine false
  rw [if_neg Bool.false_ne_true, List.append_nil] at htext
  have hdrop : (spelling line.inlines ++ behind ++ lineEnd).drop (spelling line.inlines).length =
      behind ++ lineEnd := by
    rw [List.append_assoc, List.drop_left]
  have htail : ∀ c ∈ (behind ++ lineEnd).head?, (Text.isBlank c || Text.isPunctuation c) = true := by
    intro c hc
    rw [List.head?_append] at hc
    rcases Option.or_eq_some_iff.1 hc with hc | ⟨-, hc⟩
    · rw [hspace c hc]
      decide
    · exact hend.atEnd_lineEnd.head?_isBlank c hc
  have hraw := (tokensOf_isCut false (behind ++ lineEnd) (spelling line.inlines)).rawOf_eq
  refine ⟨tokensOf false (behind ++ lineEnd) (spelling line.inlines), ?_, h.phrase.spells false htail .none⟩
  have hstart : (' ' :: (spelling line.inlines ++ behind ++ (lineEnd ++ tail))).dropWhile isGap =
      spelling line.inlines ++ behind ++ (lineEnd ++ tail) := by
    obtain ⟨c, cs, hcs, hc⟩ := h.first
    simp [hcs, isGap_of_not_startsBlock hc.first, show isGap ' ' = true from rfl]
  have hfeed : '\n' ∉ spelling line.inlines ++ behind := by
    rw [List.mem_append, not_or]
    refine ⟨fun hmem => ?_, hbehind⟩
    have := (htext.inside '\n' hmem).1
    cases this
  -- What is left of the line behind the text is a blank or a line end, and both are dropped.
  have hbody : Text.dropEndWhile isGap
      ((spelling line.inlines ++ rest).takeWhile fun c => !isLineEnd c) = spelling line.inlines := by
    rw [List.takeWhile_append_of_pos (fun c hc => by simp [(htext.inside c hc).1])]
    rcases hrest with rfl | rfl
    · have hnone : rest.takeWhile (fun c => !isLineEnd c) = [] := by cases hend <;> rfl
      rw [hnone]
      exact Text.dropEndWhile_append [] htext.last (by simp)
    · exact Text.dropEndWhile_append [' '] htext.last (by simp [isGap])
  have hclosing : closingSigns (spelling line.inlines ++ rest) = (spelling line.inlines).length := by
    refine closingSigns_text htext hsign ?_
    rcases hrest with rfl | rfl
    · exact fun c hc => by simp [hend.isLineEnd c hc]
    · simp
  have hcut := cutLast_rawOf (tokensOf false (behind ++ lineEnd) (spelling line.inlines)) rest
  rw [hraw] at hcut
  rw [readHeading]
  simp only [afterLineEnd?, hstart, hend.splitLine hfeed, hsplit, hbody, hclosing, hdrop, hcut]
  rfl

/-- A heading is read back from its line. -/
theorem readHeading_written {line : TextLine} (h : line.Fair)
    (hsign : (spelling line.inlines).getLast? ≠ some '#') (hbrace : (spelling line.inlines).getLast? ≠ some '\x7d')
    {attr : Attr} (hattr : HasNames attr) {lineEnd tail : List Char} (hend : EndsLine lineEnd tail) :
    ∃ tokens, readHeading (' ' :: (spelling line.inlines ++ groupBehind attr ++ (lineEnd ++ tail))) =
        (tokens, attr, tail) ∧ Spells false false false tokens [] line.inlines := by
  cases hempty : attr.isEmpty with
  | true =>
    have hattr_eq := Attr.eq_empty_of_isEmpty hempty
    have htext := h.isTextLine false
    rw [if_neg Bool.false_ne_true, List.append_nil] at htext
    have hsplit := splitHeadingAttr_text htext hbrace hend.isLineEnd
    rw [groupBehind, if_pos hempty, hattr_eq]
    have hnone : '\n' ∉ ([] : List Char) := List.not_mem_nil
    exact readHeading_of_split h hsign hnone (fun c hc => by cases hc) hend (by rwa [List.append_nil]) (.inl rfl)
  | false =>
    have hgroup := splitHeadingAttr_group (spelling line.inlines) hattr hend.isLineEnd
    have hfeed : '\n' ∉ ' ' :: attr.show.toList := by
      rw [toList_show_group]
      intro hmem
      have hmem : '\n' ∈ groupText attr := by simpa using hmem
      have := isGroupChar_of_mem hattr '\n' hmem
      cases this
    rw [groupBehind, hempty, if_neg Bool.false_ne_true]
    exact readHeading_of_split h hsign hfeed (fun c hc => by cases hc; rfl) hend hgroup (.inr rfl)

end Literate.Markdown
