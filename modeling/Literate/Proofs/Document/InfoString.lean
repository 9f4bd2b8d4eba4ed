import Literate.Proofs.Document.AttrText

/-!
# Info strings read again

The attributes of a code block come out of its info string and are written back as one group. Two things
that an info string can say have no place in a group that reads back: a closing brace in the bare word in
front, and a quote in a value that is written without quotes (`readable_ofInfo_iff`).

Where the group is not read, its text is taken for a bare word. What comes of that is never the attributes
again: the word would have to hold itself, or the identifier to come out of a text that begins with a dot
(`ne_bareWord_show`).

Main result: `ofInfo_show_ofInfo_iff`.
-/

namespace Literate.Attr

-- ---------------------------------------------------------------------------
-- Attributes of an info string
-- ---------------------------------------------------------------------------

/-- The text up to its first blank. -/
def bareWord (cs : List Char) : List Char :=
  cs.takeWhile fun c => !Text.isBlank c

theorem isBlank_of_mem_bareWord {c : Char} {cs : List Char} (h : c ∈ bareWord cs) :
    Text.isBlank c = false := by
  simpa using List.mem_takeWhile_imp h

theorem bareWord_append {word : List Char} (h : ∀ c ∈ word, Text.isBlank c = false)
    (cs : List Char) : bareWord (word ++ cs) = word ++ bareWord cs :=
  List.takeWhile_append_of_pos fun c hc => by rw [h c hc]; rfl

theorem trimBlanks_prefix (cs : List Char) : Text.trimBlanks cs <+: cs.dropWhile Text.isBlank := by
  rw [Text.trimBlanks, Text.dropEndWhile, ← List.reverse_suffix, List.reverse_reverse]
  exact List.dropWhile_suffix _

/-- A text without blanks at its ends begins with none. -/
theorem isBlank_head_trimBlanks {cs : List Char} {c : Char} (h : c ∈ (Text.trimBlanks cs).head?) :
    Text.isBlank c = false := by
  obtain ⟨behind, hbehind⟩ := trimBlanks_prefix cs
  have hhead := List.head?_dropWhile_not (p := Text.isBlank) (l := cs)
  rw [← hbehind, List.head?_append, Option.mem_def.mp h] at hhead
  simpa using hhead

theorem Wellformed.empty : Wellformed empty :=
  ⟨fun _ hc => (by cases hc), fun _ hname => (by cases hname), fun _ hpair => (by cases hpair)⟩

/-- What is read as one group begins with a brace. -/
theorem exists_brace_of_parseChars? {cs : List Char} {attr : Attr} (h : parseChars? cs = some attr) :
    ∃ body, Text.trimBlanks cs = '\x7b' :: body ∧ readItems Attr.empty body = some (attr, []) := by
  unfold parseChars? at h
  split at h
  · rename_i read hread
    cases h
    unfold readGroup? at hread
    split at hread
    · rename_i body htrim
      exact ⟨body, htrim, hread⟩
    · cases hread
  · cases h

theorem Wellformed.of_parseChars? {cs : List Char} {attr : Attr} (h : parseChars? cs = some attr) :
    attr.Wellformed := by
  obtain ⟨body, -, hread⟩ := exists_brace_of_parseChars? h
  exact .of_readItems hread

theorem Wellformed.getD_parseChars? (cs : List Char) : ((parseChars? cs).getD Attr.empty).Wellformed := by
  cases h : parseChars? cs with
  | none => exact .empty
  | some attr => exact .of_parseChars? h

/-- An info string gives what a group can give, or that with a bare word in front of the classes. -/
theorem ofInfo_cases (info : String) :
    (ofInfo info).Wellformed ∨
      ∃ (word : List Char) (rest : Attr), word ≠ [] ∧ (∀ c ∈ word, Text.isBlank c = false) ∧
        rest.Wellformed ∧ ofInfo info = { rest with classes := String.ofList word :: rest.classes } := by
  rw [ofInfo]
  by_cases hempty : (Text.trimBlanks info.toList).isEmpty = true
  · simp only [hempty, if_true]
    exact .inl .empty
  simp only [hempty]
  cases hparse : parseChars? (Text.trimBlanks info.toList) with
  | some attr => exact .inl (.of_parseChars? hparse)
  | none =>
    refine .inr ⟨bareWord (Text.trimBlanks info.toList), _, ?_, ?_, .getD_parseChars? _, rfl⟩
    · cases htrim : Text.trimBlanks info.toList with
      | nil => exact absurd (by rw [htrim]; rfl) hempty
      | cons c cs =>
        have hc : Text.isBlank c = false := isBlank_head_trimBlanks (by rw [htrim]; rfl)
        simp [bareWord, hc]
    · exact fun c hc => isBlank_of_mem_bareWord hc

/-- Only a closing brace in a class or a quote in a value keeps the attributes of an info string from
being readable. -/
theorem readable_ofInfo_iff (info : String) :
    (ofInfo info).Readable ↔
      (∀ name ∈ (ofInfo info).classes, '\x7d' ∉ name.toList) ∧
        ∀ pair ∈ (ofInfo info).pairs, '"' ∉ pair.2.toList := by
  constructor
  · intro h
    refine ⟨fun name hname hmem => ?_, h.values⟩
    exact ((h.classes name hname).2 _ hmem).2 rfl
  · rintro ⟨hclasses, hvalues⟩
    refine ⟨?_, hvalues⟩
    rcases ofInfo_cases info with hattr | ⟨word, rest, hne, hblank, hrest, heq⟩
    · exact hattr
    · rw [heq] at hclasses ⊢
      refine ⟨hrest.id, List.forall_mem_cons.mpr ⟨⟨ofList_ne_empty hne, fun c hc => ?_⟩, hrest.classes⟩,
        hrest.keys⟩
      have hbrace := hclasses _ List.mem_cons_self
      rw [String.toList_ofList] at hc hbrace
      exact ⟨hblank c hc, fun heq => hbrace (heq ▸ hc)⟩

-- ---------------------------------------------------------------------------
-- A group as an info string
-- ---------------------------------------------------------------------------

theorem ofInfo_show (attr : Attr) :
    ofInfo attr.show =
      match parse? attr.show with
      | some other => other
      | none =>
        let rest := (parseChars? (attr.show.toList.drop (bareWord attr.show.toList).length)).getD empty
        { rest with classes := String.ofList (bareWord attr.show.toList) :: rest.classes } := by
  have hempty : attr.show.toList.isEmpty = false := by
    rw [toList_show]
    rfl
  rw [ofInfo, trimBlanks_show]
  simp only [hempty]
  rfl

/-- The first of some texts stands at the front of them all. -/
theorem exists_intercalate_cons (item : List Char) (items : List (List Char)) :
    ∃ behind, [' '].intercalate (item :: items) = item ++ behind := by
  cases items with
  | nil => exact ⟨[], by simp⟩
  | cons next items => exact ⟨_, by rw [List.intercalate_cons_cons, List.append_assoc]⟩

/-- A group with an identifier and a class, up to the class. -/
theorem exists_show_id {attr : Attr} (hid : attr.id ≠ "") {name : String} {names : List String}
    (hclasses : attr.classes = name :: names) :
    ∃ behind, attr.show.toList = '\x7b' :: '#' :: (attr.id.toList ++ ' ' :: '.' :: behind) := by
  have hempty : attr.id.isEmpty = false := by simpa using hid
  have hitems : attr.itemList = .id attr.id.toList :: .class name.toList ::
      (names.map (fun name => Item.class name.toList) ++ attr.pairs.map pairItem) := by
    simp [itemList, nameItems, hempty, hclasses]
  obtain ⟨behind, hbehind⟩ := exists_intercalate_cons (Item.class name.toList).written
    ((names.map (fun name => Item.class name.toList) ++ attr.pairs.map pairItem).map Item.written)
  refine ⟨name.toList ++ behind ++ ['\x7d'], ?_⟩
  rw [toList_show, hitems, List.map_cons, List.map_cons, List.intercalate_cons_cons, hbehind]
  simp [Item.written]

/-- A group that begins with a class. -/
theorem exists_show_class {attr : Attr} (hid : attr.id = "") {name : String} {names : List String}
    (hclasses : attr.classes = name :: names) :
    ∃ behind, attr.show.toList = '\x7b' :: '.' :: (name.toList ++ behind) := by
  have hitems : attr.itemList = .class name.toList ::
      (names.map (fun name => Item.class name.toList) ++ attr.pairs.map pairItem) := by
    simp [itemList, nameItems, hid, hclasses]
  obtain ⟨behind, hbehind⟩ := exists_intercalate_cons (Item.class name.toList).written
    ((names.map (fun name => Item.class name.toList) ++ attr.pairs.map pairItem).map Item.written)
  refine ⟨behind ++ ['\x7d'], ?_⟩
  rw [toList_show, hitems, List.map_cons, hbehind]
  simp [Item.written]

/-- A group that begins with a class has a longer first word than this class. -/
theorem bareWord_show_ne {attr : Attr} (hid : attr.id = "") {word : List Char} {names : List String}
    (hword : ∀ c ∈ word, Text.isBlank c = false) (hclasses : attr.classes = String.ofList word :: names) :
    bareWord attr.show.toList ≠ word := by
  obtain ⟨behind, hshow⟩ := exists_show_class hid hclasses
  rw [String.toList_ofList] at hshow
  have hlonger : bareWord attr.show.toList = '\x7b' :: '.' :: (word ++ bareWord behind) := by
    rw [hshow]
    exact congrArg ('\x7b' :: '.' :: ·) (bareWord_append hword behind)
  intro heq
  have hlength := congrArg List.length (heq.symm.trans hlonger)
  simp only [List.length_cons, List.length_append] at hlength
  omega

/-- Behind an identifier stands no group. -/
theorem parseChars?_behind_id {attr : Attr} (hne : attr.id ≠ "") (hid : IsWord attr.id)
    {name : String} {names : List String} (hclasses : attr.classes = name :: names) :
    parseChars? (attr.show.toList.drop (bareWord attr.show.toList).length) = none := by
  obtain ⟨behind, hshow⟩ := exists_show_id hne hclasses
  have hblank : ∀ c ∈ '\x7b' :: '#' :: attr.id.toList, Text.isBlank c = false := by
    refine List.forall_mem_cons.mpr ⟨by decide, List.forall_mem_cons.mpr ⟨by decide, ?_⟩⟩
    exact fun c hc => (hid c hc).1
  have hword : bareWord attr.show.toList = '\x7b' :: '#' :: attr.id.toList := by
    have happend := bareWord_append hblank (' ' :: '.' :: behind)
    rw [List.cons_append, List.cons_append, ← hshow] at happend
    rw [happend]
    simp [bareWord, show Text.isBlank ' ' = true by decide]
  have hdrop : attr.show.toList.drop (bareWord attr.show.toList).length = ' ' :: '.' :: behind := by
    rw [hword, hshow]
    exact List.drop_left
  rw [hdrop]
  by_contra hsome
  obtain ⟨read, hread⟩ := Option.ne_none_iff_exists'.mp hsome
  obtain ⟨body, htrim, -⟩ := exists_brace_of_parseChars? hread
  obtain ⟨more, hmore⟩ := trimBlanks_prefix (' ' :: '.' :: behind)
  rw [htrim] at hmore
  cases hmore

/-- A group that is taken for a bare word does not give its attributes. -/
theorem ne_bareWord_show (attr : Attr) {rest : Attr}
    (hrest : rest =
      (parseChars? (attr.show.toList.drop (bareWord attr.show.toList).length)).getD empty) :
    { rest with classes := String.ofList (bareWord attr.show.toList) :: rest.classes } ≠ attr := by
  intro heq
  have hclasses : attr.classes = String.ofList (bareWord attr.show.toList) :: rest.classes :=
    (congrArg Attr.classes heq).symm
  have hid : rest.id = attr.id := by rw [← heq]
  by_cases hne : attr.id = ""
  · -- The word would be the first class, which stands inside the word.
    exact bareWord_show_ne hne (fun c hc => isBlank_of_mem_bareWord hc) hclasses rfl
  · -- The identifier would come out of a text that begins with a dot.
    have hword : IsWord attr.id := by
      rw [← hid, hrest]
      exact (Wellformed.getD_parseChars? _).id
    rw [parseChars?_behind_id hne hword hclasses] at hrest
    rw [hrest] at hid
    exact hne hid.symm

theorem ofInfo_show_self_iff (attr : Attr) : ofInfo attr.show = attr ↔ attr.Readable := by
  rw [← parse?_show_self_iff, ofInfo_show]
  cases parse? attr.show with
  | some other => simp
  | none => simpa using ne_bareWord_show attr rfl

/-- The attributes of an info string come back from the group that they are written as, unless a class
holds a closing brace or a value a quote. -/
theorem ofInfo_show_ofInfo_iff (info : String) :
    ofInfo (ofInfo info).show = ofInfo info ↔
      (∀ name ∈ (ofInfo info).classes, '\x7d' ∉ name.toList) ∧
        ∀ pair ∈ (ofInfo info).pairs, '"' ∉ pair.2.toList := by
  rw [ofInfo_show_self_iff, readable_ofInfo_iff]

/-- A value with a quote inside that was written without quotes, and a bare word with a closing brace:
the group that either is written as is taken for a bare word. -/
theorem ofInfo_show_ofInfo_quote :
    ofInfo (ofInfo "\x7ba=x\"y\x7d").show ≠ ofInfo "\x7ba=x\"y\x7d" ∧
      ofInfo (ofInfo "py\x7dthon").show ≠ ofInfo "py\x7dthon" := by
  decide +kernel

end Literate.Attr
