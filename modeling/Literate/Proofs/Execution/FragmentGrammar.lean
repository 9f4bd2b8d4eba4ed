import Literate.Execution.Fragment
import Literate.Proofs.Text.BytePlaces
import Literate.Proofs.Text.Runs

/-!
# The grammar of fragments

What a fragment looks like, said without the search for it: code between backticks, and directly behind it a
group of words, each behind a dot. `Spelling` has the parts that a fragment is written in. The parts can be
told from the text alone, whatever comes after it (`Spelling.eq_of_text_append`), so there is at most one
fragment at a place.

The search goes through a text from left to right. A backtick may close what another has opened, and a group
that has gone wrong may hold the backtick that begins the fragment, so after a failure the search goes on with
the next character, not behind what it has read.

Main results:

* `read?_eq_some_iff`: what is read at a place is what is spelled there.
* `find?_eq_some_iff`: what is found is what is spelled at the first place where anything is.
* `find?_leftmost`: the same in bytes, with what is left of the text when the fragment is replaced.
-/

namespace Literate.Fragment

open Text (isBlank)
open Text.Utf8 (byteSize byteSize_append slice? slice?_eq_some_iff replace? replace?_append)

-- ---------------------------------------------------------------------------
-- How fragments are spelled
-- ---------------------------------------------------------------------------

/-- A word of a group as it is written, behind a dot and a gap of blanks or nothing. -/
@[ext]
structure Item where
  gap : List Char
  word : List Char
  gap_blank : ∀ c ∈ gap, isBlank c = true
  word_ne_nil : word ≠ []
  word_chars : ∀ c ∈ word, isTagChar c = true

def Item.text (item : Item) : List Char :=
  item.gap ++ '.' :: item.word

/-- A fragment as it is written: its code, the words of its group, and the gap before the closing brace. -/
@[ext]
structure Spelling where
  code : List Char
  items : List Item
  gap : List Char
  code_ne_nil : code ≠ []
  code_ticks : '\x60' ∉ code
  items_ne_nil : items ≠ []
  gap_blank : ∀ c ∈ gap, isBlank c = true

namespace Spelling

/-- What stands between the braces. -/
def group (s : Spelling) : List Char :=
  s.items.flatMap Item.text ++ s.gap

def text (s : Spelling) : List Char :=
  '\x60' :: (s.code ++ '\x60' :: '\x7b' :: (s.group ++ ['\x7d']))

/-- The words of the group, without their dots. -/
def words (s : Spelling) : List (List Char) :=
  s.items.map Item.word

/-- Whether a fragment takes up the bytes of a text from the first number up to the second. -/
def At (s : Spelling) (span : Nat × Nat) (text : String) : Prop :=
  slice? span.1 span.2 text.toList = some s.text

instance (s : Spelling) (span : Nat × Nat) (text : String) : Decidable (s.At span text) :=
  inferInstanceAs (Decidable (slice? span.1 span.2 text.toList = some s.text))

end Spelling

-- ---------------------------------------------------------------------------
-- One spelling for a text
-- ---------------------------------------------------------------------------

theorem isTagChar_eq_true {c : Char} :
    isTagChar c = true ↔ isBlank c = false ∧ c ≠ '.' ∧ c ≠ '\x7b' ∧ c ≠ '\x7d' := by
  simp [isTagChar, and_assoc]

/-- What comes after a word in a group does not go on with it. -/
theorem isTagChar_head?_group {items : List Item} {gap : List Char}
    (hgap : ∀ c ∈ gap, isBlank c = true) (rest : List Char) :
    ∀ c ∈ (items.flatMap Item.text ++ (gap ++ '\x7d' :: rest)).head?, isTagChar c = false := by
  have hblank : ∀ c, isBlank c = true → isTagChar c = false := fun c hc => by simp [isTagChar, hc]
  intro c hc
  rcases items with _ | ⟨item, items⟩
  · rcases gap with _ | ⟨d, gap⟩ <;> cases hc
    · decide
    · exact hblank _ (hgap _ List.mem_cons_self)
  · rw [List.flatMap_cons, Item.text] at hc
    rcases hitem : item.gap with _ | ⟨d, gap⟩ <;> rw [hitem] at hc <;> cases hc
    · decide
    · exact hblank _ (item.gap_blank _ (hitem ▸ List.mem_cons_self))

/-- The words of a group, its last gap and what comes after it can be told from the text. -/
theorem eq_of_group_append {items items' : List Item} {gap gap' rest rest' : List Char}
    (hgap : ∀ c ∈ gap, isBlank c = true) (hgap' : ∀ c ∈ gap', isBlank c = true)
    (h : items.flatMap Item.text ++ (gap ++ '\x7d' :: rest) =
      items'.flatMap Item.text ++ (gap' ++ '\x7d' :: rest')) :
    items = items' ∧ gap = gap' ∧ rest = rest' := by
  have hbrace : ∀ cs : List Char, ∀ c ∈ ('\x7d' :: cs).head?, isBlank c = false :=
    Text.head?_cons_of_not (by decide)
  have hdot : ∀ cs : List Char, ∀ c ∈ ('.' :: cs).head?, isBlank c = false :=
    Text.head?_cons_of_not (by decide)
  -- A gap ends at a dot or at the brace, and which of the two comes behind it tells if a word follows.
  induction items generalizing items' with
  | nil =>
    cases items' with
    | nil =>
      obtain ⟨rfl, hrest⟩ := Text.run_inj hgap hgap' (hbrace rest) (hbrace rest') h
      exact ⟨rfl, rfl, (List.cons.inj hrest).2⟩
    | cons item' items' =>
      rw [List.flatMap_cons, Item.text, List.append_assoc, List.append_assoc] at h
      obtain ⟨-, hrest⟩ := Text.run_inj hgap item'.gap_blank (hbrace rest) (hdot _) h
      cases hrest
  | cons item items ih =>
    rw [List.flatMap_cons, Item.text, List.append_assoc, List.append_assoc] at h
    cases items' with
    | nil =>
      obtain ⟨-, hrest⟩ := Text.run_inj item.gap_blank hgap' (hdot _) (hbrace rest') h
      cases hrest
    | cons item' items' =>
      rw [List.flatMap_cons, Item.text, List.append_assoc, List.append_assoc] at h
      obtain ⟨hsame, hword⟩ := Text.run_inj item.gap_blank item'.gap_blank (hdot _) (hdot _) h
      obtain ⟨hword, hlater⟩ := Text.run_inj item.word_chars item'.word_chars
        (isTagChar_head?_group hgap rest) (isTagChar_head?_group hgap' rest') (List.cons.inj hword).2
      obtain ⟨hitems, hlast⟩ := ih hlater
      exact ⟨List.cons_eq_cons.mpr ⟨Item.ext hsame hword, hitems⟩, hlast⟩

theorem Spelling.text_append (s : Spelling) (rest : List Char) :
    s.text ++ rest = '\x60' :: (s.code ++ '\x60' :: '\x7b' :: (s.group ++ '\x7d' :: rest)) := by
  simp [text]

theorem Spelling.exists_text_eq (s : Spelling) : ∃ cs, s.text = cs ++ ['\x7d'] :=
  ⟨'\x60' :: (s.code ++ '\x60' :: '\x7b' :: s.group), by simp [text]⟩

/-- No two fragments stand at one place. -/
theorem Spelling.eq_of_text_append {s s' : Spelling} {rest rest' : List Char}
    (h : s.text ++ rest = s'.text ++ rest') : s = s' ∧ rest = rest' := by
  have hticks : ∀ s : Spelling, ∀ c ∈ s.code, decide (c ≠ '\x60') = true := by
    intro s c hc
    exact decide_eq_true fun heq => s.code_ticks (heq ▸ hc)
  have htick : ∀ cs : List Char, ∀ c ∈ ('\x60' :: cs).head?, decide (c ≠ '\x60') = false :=
    Text.head?_cons_of_not (by decide)
  rw [text_append, text_append] at h
  obtain ⟨hcode, hbehind⟩ :=
    Text.run_inj (hticks s) (hticks s') (htick _) (htick _) (List.cons.inj h).2
  have hgroup := (List.cons.inj (List.cons.inj hbehind).2).2
  rw [group, group, List.append_assoc, List.append_assoc] at hgroup
  obtain ⟨hitems, hgap, hrest⟩ := eq_of_group_append s.gap_blank s'.gap_blank hgroup
  exact ⟨Spelling.ext hcode hitems hgap, hrest⟩

-- ---------------------------------------------------------------------------
-- Reading at a place
-- ---------------------------------------------------------------------------

/-- A word is read up to where it ends, and the group may end behind it. -/
theorem afterGroup?_item (ended : Bool) (item : Item) {rest : List Char}
    (hends : ∀ c ∈ rest.head?, isTagChar c = false) :
    afterGroup? ended (item.text ++ rest) = afterGroup? true rest := by
  have hblanks : (item.text ++ rest).dropWhile isBlank = '.' :: (item.word ++ rest) := by
    rw [Item.text, List.append_assoc]
    exact Text.dropWhile_run item.gap_blank (Text.head?_cons_of_not (by decide) _)
  have hword : ((item.word ++ rest).takeWhile isTagChar).isEmpty = false := by
    rw [Text.takeWhile_run item.word_chars hends]
    simpa using item.word_ne_nil
  rw [afterGroup?]
  split
  · rename_i hbrace
    rw [hblanks] at hbrace
    cases hbrace
  · rename_i rest' hdot
    rw [hblanks] at hdot
    cases hdot
    rw [hword, Text.dropWhile_run item.word_chars hends]
    rfl
  · rename_i hneither
    exact absurd hblanks (hneither _)

theorem afterGroup?_close (ended : Bool) {gap : List Char} (hgap : ∀ c ∈ gap, isBlank c = true)
    (rest : List Char) :
    afterGroup? ended (gap ++ '\x7d' :: rest) = if ended then some rest else none := by
  have hblanks : (gap ++ '\x7d' :: rest).dropWhile isBlank = '\x7d' :: rest :=
    Text.dropWhile_run hgap (Text.head?_cons_of_not (by decide) rest)
  rw [afterGroup?]
  split
  · rename_i hbrace
    rw [hblanks] at hbrace
    cases hbrace
    rfl
  · rename_i hdot
    rw [hblanks] at hdot
    cases hdot
  · rename_i hneither _
    exact absurd hblanks (hneither _)

/-- The words of a group are read to its closing brace, if there are any or were before. -/
theorem afterGroup?_eq_some_iff {ended : Bool} {cs rest : List Char} :
    afterGroup? ended cs = some rest ↔
      ∃ items gap, (∀ c ∈ gap, isBlank c = true) ∧ (ended = true ∨ items ≠ []) ∧
        cs = items.flatMap Item.text ++ (gap ++ '\x7d' :: rest) := by
  constructor
  · have hgap (cs : List Char) : ∀ c ∈ cs.takeWhile isBlank, isBlank c = true :=
      fun c hc => List.mem_takeWhile_imp hc
    intro h
    fun_induction afterGroup? ended cs with
    | case1 cs rest' hbrace =>
      cases h
      refine ⟨[], cs.takeWhile isBlank, hgap cs, .inl rfl, ?_⟩
      rw [List.flatMap_nil, List.nil_append, ← hbrace, List.takeWhile_append_dropWhile]
    | case2 => cases h
    | case3 => cases h
    | case4 ended cs behind hdot hword ih =>
      obtain ⟨items, gap, hblank, -, hbehind⟩ := ih h
      let item : Item := ⟨cs.takeWhile isBlank, behind.takeWhile isTagChar, hgap cs,
        by simpa using hword, fun c hc => List.mem_takeWhile_imp hc⟩
      refine ⟨item :: items, gap, hblank, .inr (List.cons_ne_nil _ _), ?_⟩
      rw [List.flatMap_cons, List.append_assoc, ← hbehind, Item.text, List.append_assoc, List.cons_append,
        List.takeWhile_append_dropWhile, ← hdot, List.takeWhile_append_dropWhile]
    | case5 => cases h
  · rintro ⟨items, gap, hgap, hended, rfl⟩
    induction items generalizing ended with
    | nil =>
      rw [List.flatMap_nil, List.nil_append, afterGroup?_close _ hgap, if_pos]
      simpa using hended
    | cons item items ih =>
      rw [List.flatMap_cons, List.append_assoc,
        afterGroup?_item _ item (isTagChar_head?_group hgap rest)]
      exact ih (.inl rfl)

theorem take_group (group after : List Char) :
    (group ++ '\x7d' :: after).take ((group ++ '\x7d' :: after).length - after.length - 1) = group := by
  have hlength : (group ++ '\x7d' :: after).length - after.length - 1 = group.length := by
    rw [List.length_append, List.length_cons]
    omega
  rw [hlength, List.take_left]

/-- What is read at the front of a text is the fragment that is spelled there. -/
theorem read?_eq_some_iff {cs code after : List Char} {tags : List (List Char)} :
    read? cs = some (code, tags, after) ↔
      ∃ s : Spelling, cs = s.text ++ after ∧ code = s.code ∧ tags = tagsOf s.group := by
  constructor
  · intro h
    unfold read? at h
    split at h
    · rename_i cs
      simp only at h
      split at h
      · rename_i rest hdrop
        split at h
        · cases h
        · rename_i hcode
          obtain ⟨after', hgroup, hparts⟩ := Option.map_eq_some_iff.mp h
          cases hparts
          obtain ⟨items, gap, hgap, hitems, rfl⟩ := afterGroup?_eq_some_iff.mp hgroup
          -- The code goes up to the first backtick, so it has none.
          have hticks : '\x60' ∉ cs.takeWhile (· ≠ '\x60') := by
            intro hmem
            simpa using List.mem_takeWhile_imp hmem
          refine ⟨⟨_, items, gap, by simpa using hcode, hticks, by simpa using hitems, hgap⟩, ?_, rfl, ?_⟩
          · rw [Spelling.text_append, Spelling.group, List.append_assoc, ← hdrop,
              List.prefix_iff_eq_append.mp (List.takeWhile_prefix (· ≠ '\x60'))]
          · rw [← List.append_assoc, take_group, Spelling.group]
      · cases h
    · cases h
  · rintro ⟨s, rfl, rfl, rfl⟩
    -- The other way round: each part of the spelling ends where the scan for it does.
    have hcode : (s.code ++ '\x60' :: '\x7b' :: (s.group ++ '\x7d' :: after)).takeWhile
        (· ≠ '\x60') = s.code :=
      Text.Utf8.takeWhile_ne_append s.code_ticks
    have hempty : ¬s.code.isEmpty = true := by simpa using s.code_ne_nil
    have hgroup : afterGroup? false (s.group ++ '\x7d' :: after) = some after :=
      afterGroup?_eq_some_iff.mpr
        ⟨s.items, s.gap, s.gap_blank, .inr s.items_ne_nil, List.append_assoc ..⟩
    rw [Spelling.text_append, read?]
    simp only [hcode, List.drop_left]
    rw [if_neg hempty, hgroup, Option.map_some, take_group]

-- ---------------------------------------------------------------------------
-- The first place
-- ---------------------------------------------------------------------------

/-- `s` stands in a text behind `front` and in front of `behind`, and no fragment begins before it. -/
structure IsFirst (cs front : List Char) (s : Spelling) (behind : List Char) : Prop where
  stands : cs = front ++ (s.text ++ behind)
  first : ∀ front' s' behind', cs = front' ++ (Spelling.text s' ++ behind') →
    front.length ≤ front'.length

theorem read?_eq_none_iff {cs : List Char} :
    read? cs = none ↔ ∀ s : Spelling, ¬ s.text <+: cs := by
  constructor
  · rintro hnone s ⟨behind, rfl⟩
    have hread : read? (s.text ++ behind) = some (s.code, tagsOf s.group, behind) :=
      read?_eq_some_iff.mpr ⟨s, rfl, rfl, rfl⟩
    rw [hnone] at hread
    cases hread
  · intro hall
    rcases hread : read? cs with _ | ⟨code, tags, after⟩
    · rfl
    · obtain ⟨s, rfl, -⟩ := read?_eq_some_iff.mp hread
      exact absurd ⟨after, rfl⟩ (hall s)

/-- Nothing is found exactly if no part of the text is a fragment. -/
theorem findAfter?_eq_none_iff {seen cs : List Char} :
    findAfter? seen cs = none ↔ ∀ s : Spelling, ¬ s.text <:+: cs := by
  fun_induction findAfter? seen cs with
  | case1 => simp [Spelling.text]
  | case2 seen c cs code tags after hread =>
    obtain ⟨s, hs, -⟩ := read?_eq_some_iff.mp hread
    refine iff_of_false (Option.some_ne_none _) fun hall => hall s ?_
    rw [hs]
    exact (List.prefix_append ..).isInfix
  | case3 seen c cs hread ih =>
    rw [ih]
    simp only [List.infix_cons_iff, not_or, forall_and]
    exact (and_iff_right (read?_eq_none_iff.mp hread)).symm

/-- What is found is spelled at the first place where anything is. -/
theorem of_findAfter?_eq_some {seen cs : List Char} {fragment : Fragment}
    (h : findAfter? seen cs = some fragment) :
    ∃ front s, fragment.before = seen.reverse ++ front ∧ IsFirst cs front s fragment.after ∧
      fragment.code = s.code ∧ fragment.tags = tagsOf s.group := by
  fun_induction findAfter? seen cs with
  | case1 => cases h
  | case2 seen c cs code tags after hread =>
    cases h
    obtain ⟨s, hs, hcode, htags⟩ := read?_eq_some_iff.mp hread
    exact ⟨[], s, (List.append_nil _).symm, ⟨hs, fun _ _ _ _ => Nat.zero_le _⟩, hcode, htags⟩
  | case3 seen c cs hread ih =>
    obtain ⟨front, s, hbefore, hfirst, hparts⟩ := ih h
    refine ⟨c :: front, s, by simpa using hbefore, ⟨congrArg (c :: ·) hfirst.stands, ?_⟩, hparts⟩
    intro front' s' behind' hstands
    cases front' with
    | nil => exact absurd ⟨behind', hstands.symm⟩ (read?_eq_none_iff.mp hread s')
    | cons d front' => exact Nat.succ_le_succ (hfirst.first front' s' behind' (List.cons.inj hstands).2)

/-- There is one first fragment. -/
theorem IsFirst.unique {cs front front' behind behind' : List Char} {s s' : Spelling}
    (h : IsFirst cs front s behind) (h' : IsFirst cs front' s' behind') :
    front = front' ∧ s = s' ∧ behind = behind' := by
  have hlength : front.length = front'.length :=
    Nat.le_antisymm (h.first _ _ _ h'.stands) (h'.first _ _ _ h.stands)
  obtain ⟨hfront, htext⟩ := List.append_inj (h.stands.symm.trans h'.stands) hlength
  exact ⟨hfront, Spelling.eq_of_text_append htext⟩

theorem find?_eq_none_iff {text : String} :
    find? text = none ↔ ∀ s : Spelling, ¬ s.text <:+: text.toList :=
  findAfter?_eq_none_iff

theorem find?_eq_some_iff {text : String} {fragment : Fragment} :
    find? text = some fragment ↔
      ∃ s, IsFirst text.toList fragment.before s fragment.after ∧ fragment.code = s.code ∧
        fragment.tags = tagsOf s.group := by
  constructor
  · intro h
    obtain ⟨front, s, hbefore, hfirst, hparts⟩ := of_findAfter?_eq_some h
    rw [List.reverse_nil, List.nil_append] at hbefore
    exact ⟨s, hbefore ▸ hfirst, hparts⟩
  · rintro ⟨s, hfirst, hcode, htags⟩
    rcases hfind : find? text with _ | other
    · refine absurd ?_ (find?_eq_none_iff.mp hfind s)
      exact ⟨fragment.before, fragment.after, by rw [List.append_assoc, ← hfirst.stands]⟩
    · obtain ⟨front, s', hbefore, hfirst', hcode', htags'⟩ := of_findAfter?_eq_some hfind
      rw [List.reverse_nil, List.nil_append] at hbefore
      obtain ⟨hfront, rfl, hbehind⟩ := hfirst.unique hfirst'
      rcases fragment with ⟨before, code, tags, after⟩
      rcases other with ⟨before', code', tags', after'⟩
      simp_all

/-- A fragment is found that no backtick comes before. -/
theorem find?_append {front : List Char} (h : '\x60' ∉ front) (s : Spelling) (behind : List Char) :
    find? (String.ofList (front ++ (s.text ++ behind))) =
      some ⟨front, s.code, tagsOf s.group, behind⟩ := by
  refine find?_eq_some_iff.mpr ⟨s, ⟨String.toList_ofList, ?_⟩, rfl, rfl⟩
  intro front' s' behind' hstands
  rw [String.toList_ofList] at hstands
  by_contra hlonger
  rcases List.append_eq_append_iff.mp hstands with ⟨more, rfl, -⟩ | ⟨more, rfl, hmore⟩
  · exact hlonger (by simp)
  · cases more with
    | nil => exact hlonger (by simp)
    | cons c more =>
      -- The other fragment begins with a backtick of `front`.
      rw [Spelling.text_append, List.cons_append] at hmore
      obtain ⟨rfl, -⟩ := List.cons.inj hmore
      exact h (List.mem_append_right _ List.mem_cons_self)

-- ---------------------------------------------------------------------------
-- In bytes
-- ---------------------------------------------------------------------------

theorem Spelling.at_iff {s : Spelling} {span : Nat × Nat} {text : String} :
    s.At span text ↔ ∃ front behind, text.toList = front ++ (s.text ++ behind) ∧
      byteSize front = span.1 ∧ span.2 = span.1 + byteSize s.text :=
  slice?_eq_some_iff

/-- The bytes of a fragment begin where it begins, and end where it ends. -/
theorem span_eq {text : String} {fragment : Fragment} {s : Spelling}
    (h : text.toList = fragment.before ++ (s.text ++ fragment.after)) :
    fragment.span text =
      (byteSize fragment.before, byteSize fragment.before + byteSize s.text) := by
  rw [span, h, byteSize_append, byteSize_append]
  exact Prod.ext rfl (by dsimp only; omega)

/-- No fragment begins at an earlier byte than the first one, and no other at the same byte. -/
theorem IsFirst.span_le {text : String} {fragment : Fragment} {s s' : Spelling} {span' : Nat × Nat}
    (h : IsFirst text.toList fragment.before s fragment.after) (h' : s'.At span' text) :
    (fragment.span text).1 ≤ span'.1 ∧
      (span'.1 = (fragment.span text).1 → span' = fragment.span text ∧ s' = s) := by
  obtain ⟨front', behind', hstands', hfirst', hlast'⟩ := Spelling.at_iff.mp h'
  have hspan := span_eq h.stands
  obtain ⟨more, rfl⟩ : fragment.before <+: front' :=
    List.prefix_of_prefix_length_le ⟨_, h.stands.symm⟩ ⟨_, hstands'.symm⟩
      (h.first _ _ _ hstands')
  rw [byteSize_append] at hfirst'
  refine ⟨by rw [hspan]; dsimp only; omega, fun hsame => ?_⟩
  obtain rfl : more = [] := by
    cases more with
    | nil => rfl
    | cons c more =>
      have hpos := c.utf8Size_pos
      rw [hspan] at hsame
      dsimp only [byteSize] at hsame hfirst'
      omega
  rw [List.append_nil, h.stands] at hstands'
  obtain ⟨rfl, -⟩ := Spelling.eq_of_text_append (List.append_cancel_left hstands')
  exact ⟨Prod.ext hsame (by rw [hlast', hsame, hspan]), rfl⟩

/-- What is found in a text is the first fragment in it, and its bytes are those of the fragment. -/
theorem exists_spelling_of_find? {text : String} {fragment : Fragment}
    (h : find? text = some fragment) :
    ∃ s : Spelling, IsFirst text.toList fragment.before s fragment.after ∧
      s.At (fragment.span text) text ∧ fragment.code = s.code ∧ fragment.tags = tagsOf s.group := by
  obtain ⟨s, hfirst, hparts⟩ := find?_eq_some_iff.mp h
  have hspan := span_eq hfirst.stands
  refine ⟨s, hfirst, Spelling.at_iff.mpr ⟨_, _, hfirst.stands, ?_, ?_⟩, hparts⟩ <;> rw [hspan]

/-- The text with another one in the place of the bytes of its fragment is what is spliced. -/
theorem replace?_span {text : String} {fragment : Fragment} (h : find? text = some fragment)
    (value : List Char) :
    replace? (fragment.span text).1 (fragment.span text).2 value text.toList =
      some (fragment.splice value).toList := by
  obtain ⟨s, hfirst, -⟩ := exists_spelling_of_find? h
  rw [span_eq hfirst.stands, hfirst.stands, splice, String.toList_ofList]
  exact replace?_append s.text value

/-- **The first fragment.** Nothing is found in a text exactly if no part of it is a fragment. What is found
takes up the bytes of a fragment that begins before all others, the only one that begins there, with its code.
When other text is put in its place, all other bytes stay. -/
theorem find?_leftmost (text : String) :
    (find? text = none ↔ ∀ s : Spelling, ¬ s.text <:+: text.toList) ∧
    ∀ fragment, find? text = some fragment →
      (∃ s : Spelling, s.At (fragment.span text) text ∧ fragment.code = s.code ∧
        ∀ s' span', Spelling.At s' span' text →
          (fragment.span text).1 ≤ span'.1 ∧
            (span'.1 = (fragment.span text).1 → span' = fragment.span text ∧ s' = s)) ∧
      ∀ value, replace? (fragment.span text).1 (fragment.span text).2 value text.toList =
        some (fragment.splice value).toList := by
  refine ⟨find?_eq_none_iff, fun fragment hfind => ⟨?_, replace?_span hfind⟩⟩
  obtain ⟨s, hfirst, hat, hcode, -⟩ := exists_spelling_of_find? hfind
  exact ⟨s, hat, hcode, fun s' span' => hfirst.span_le⟩

/-- A backtick that closes what another has opened begins the fragment, behind a character of two bytes. -/
theorem find?_leftmost_overlap :
    let text := "é`a`b`{.p .q}"
    let fragment : Fragment := ⟨['é', '\x60', 'a'], ['b'], [['p'], ['q']], []⟩
    find? text = some fragment ∧ fragment.span text = (4, 14) ∧
      (∃ s : Spelling, s.At (4, 14) text ∧ s.code = ['b'] ∧
        ∀ s' span', Spelling.At s' span' text → 4 ≤ span'.1 ∧ (span'.1 = 4 → span' = (4, 14) ∧ s' = s)) ∧
      replace? 4 14 ['7'] text.toList = some "é`a7".toList := by
  intro text fragment
  have hfind : find? text = some fragment := by cbv
  have hspan : fragment.span text = (4, 14) := by decide
  obtain ⟨⟨s, hat, hcode, hfirst⟩, hreplace⟩ := (find?_leftmost text).2 fragment hfind
  rw [hspan] at hat hfirst
  have hvalue := hreplace ['7']
  rw [hspan] at hvalue
  exact ⟨hfind, hspan, ⟨s, hat, hcode.symm, hfirst⟩, hvalue⟩

end Literate.Fragment
