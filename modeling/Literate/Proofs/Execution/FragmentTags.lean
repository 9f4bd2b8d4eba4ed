import Literate.Proofs.Execution.FragmentGrammar

/-!
# The words of a group and its tags

The pattern of a fragment takes a group apart at its dots, and no word in it has one. The tags are read off the
group once more, and this time it is taken apart at its blanks. The two agree as long as there is a blank in
front of every word but the first. A word that stands directly behind another is joined to it instead, dot
included, and neither of the two is a tag.

Main results:

* `tagsOf_group`: which words make up which tags (`tagsOfItems`).
* `tags_iff`: the tags of what is found in a text are the words of its group exactly if these are separated.
-/

namespace Literate.Fragment

open Text (isBlank splitRuns)

-- ---------------------------------------------------------------------------
-- Words that are joined
-- ---------------------------------------------------------------------------

/-- The tags of the words behind an open tag. A word with a blank in front of it begins a tag, and any other
goes on with the open one. -/
def tagsFrom (tag : List Char) : List Item → List (List Char)
  | [] => [tag]
  | item :: items =>
    if item.gap = [] then tagsFrom (tag ++ '.' :: item.word) items
    else tag :: tagsFrom item.word items

def tagsOfItems : List Item → List (List Char)
  | [] => []
  | item :: items => tagsFrom item.word items

/-- Whether a blank stands in front of every word of the group but the first. -/
def Spelling.Separated (s : Spelling) : Prop :=
  ∀ item ∈ s.items.tail, item.gap ≠ []

instance (s : Spelling) : Decidable s.Separated :=
  inferInstanceAs (Decidable (∀ item ∈ s.items.tail, item.gap ≠ []))

variable {tag : List Char} {items : List Item}

/-- What holds of every word and stays when words are joined holds of every tag. -/
theorem forall_mem_tagsFrom {P : List Char → Prop} (htag : P tag) (hword : ∀ item : Item, P item.word)
    (hjoin : ∀ tag, ∀ item : Item, P tag → P (tag ++ '.' :: item.word)) :
    ∀ t ∈ tagsFrom tag items, P t := by
  induction items generalizing tag with
  | nil => exact List.forall_mem_singleton.mpr htag
  | cons item items ih =>
    rw [tagsFrom]
    split
    · exact ih (hjoin tag item htag)
    · exact List.forall_mem_cons.mpr ⟨htag, ih (hword item)⟩

/-- No character of a word is lost. -/
theorem flatMap_tagsFrom :
    (tagsFrom tag items).flatMap ('.' :: ·) =
      '.' :: (tag ++ items.flatMap fun item => '.' :: item.word) := by
  induction items generalizing tag with
  | nil => simp [tagsFrom]
  | cons item items ih =>
    rw [tagsFrom]
    split
    · rw [ih]
      simp
    · rw [List.flatMap_cons, ih]
      simp

theorem length_tagsFrom_le : (tagsFrom tag items).length ≤ items.length + 1 := by
  induction items generalizing tag with
  | nil => exact Nat.le_refl _
  | cons item items ih =>
    rw [tagsFrom]
    split
    · exact Nat.le_succ_of_le ih
    · exact Nat.succ_le_succ ih

/-- The tags are the words exactly if none is joined to the one before it. -/
theorem tagsFrom_eq_iff :
    tagsFrom tag items = tag :: items.map Item.word ↔ ∀ item ∈ items, item.gap ≠ [] := by
  induction items generalizing tag with
  | nil => simp [tagsFrom]
  | cons item items ih =>
    rw [tagsFrom, List.map_cons, List.forall_mem_cons]
    split
    · rename_i hgap
      refine iff_of_false (fun heq => ?_) fun hall => hall.1 hgap
      have hle := @length_tagsFrom_le (tag ++ '.' :: item.word) items
      rw [heq, List.length_cons, List.length_cons, List.length_map] at hle
      omega
    · rename_i hgap
      rw [List.cons.injEq, eq_self_iff_true, true_and, ih]
      exact (and_iff_right hgap).symm

theorem dot_notMem_word (item : Item) : '.' ∉ item.word := fun hmem =>
  absurd rfl (isTagChar_eq_true.mp (item.word_chars _ hmem)).2.1

/-- A word that is joined to another leaves its dot in the tag. -/
theorem dot_notMem_tagsFrom_iff :
    (∀ t ∈ tagsFrom tag items, '.' ∉ t) ↔ '.' ∉ tag ∧ ∀ item ∈ items, item.gap ≠ [] := by
  induction items generalizing tag with
  | nil => simp [tagsFrom]
  | cons item items ih =>
    rw [tagsFrom, List.forall_mem_cons]
    split
    · rename_i hgap
      rw [ih]
      exact iff_of_false (by simp) fun hall => hall.2.1 hgap
    · rename_i hgap
      rw [List.forall_mem_cons, ih]
      simp [hgap, dot_notMem_word]

-- ---------------------------------------------------------------------------
-- Tags of a group
-- ---------------------------------------------------------------------------

theorem Item.isBlank_dot_word (item : Item) : ∀ c ∈ '.' :: item.word, isBlank c = false :=
  List.forall_mem_cons.mpr ⟨by decide, fun c hc => (isTagChar_eq_true.mp (item.word_chars c hc)).1⟩

/-- The runs of a group without its blanks are its tags with a dot in front of each. -/
theorem splitRuns_items {gap : List Char} (hgap : ∀ c ∈ gap, isBlank c = true) :
    splitRuns isBlank ('.' :: tag).reverse (items.flatMap Item.text ++ gap) =
      (tagsFrom tag items).map ('.' :: ·) := by
  induction items generalizing tag with
  | nil =>
    have hopen : ('.' :: tag).reverse ≠ [] := by simp
    cases gap with
    | nil => simp [splitRuns, tagsFrom]
    | cons c gap =>
      rw [List.flatMap_nil, List.nil_append, ← List.append_nil (c :: gap),
        Text.splitRuns_separators hopen (List.cons_ne_nil _ _) hgap]
      simp [splitRuns, tagsFrom]
  | cons item items ih =>
    rw [List.flatMap_cons, Item.text, List.append_assoc, List.append_assoc, tagsFrom]
    split
    · rename_i hnone
      rw [hnone, List.nil_append, Text.splitRuns_append item.isBlank_dot_word, ← List.reverse_append, ← ih]
      rfl
    · rename_i hsome
      rw [Text.splitRuns_separators (by simp) hsome item.gap_blank, Text.splitRuns_append item.isBlank_dot_word,
        List.append_nil, ih, List.reverse_reverse, List.map_cons]

theorem words_group (s : Spelling) : Text.words s.group = (tagsOfItems s.items).map ('.' :: ·) := by
  obtain ⟨item, items, hitems⟩ := List.exists_cons_of_ne_nil s.items_ne_nil
  rw [Text.words, Spelling.group, hitems, tagsOfItems, List.flatMap_cons, Item.text, List.append_assoc,
    List.append_assoc, Text.splitRuns_nil_separators item.gap_blank, Text.splitRuns_append item.isBlank_dot_word,
    List.append_nil, splitRuns_items s.gap_blank]

/-- No tag begins with a dot. -/
theorem head?_tag_ne : ∀ t ∈ tagsOfItems items, ∃ c cs, t = c :: cs ∧ c ≠ '.' := by
  have hword (item : Item) : ∃ c cs, item.word = c :: cs ∧ c ≠ '.' := by
    obtain ⟨c, cs, hcs⟩ := List.exists_cons_of_ne_nil item.word_ne_nil
    exact ⟨c, cs, hcs, fun heq => dot_notMem_word item (by simp [hcs, heq])⟩
  cases items with
  | nil => exact fun t ht => absurd ht List.not_mem_nil
  | cons item items =>
    refine forall_mem_tagsFrom (hword item) hword fun tag item htag => ?_
    obtain ⟨c, cs, rfl, hc⟩ := htag
    exact ⟨c, _, List.cons_append, hc⟩

theorem tagsOf_group (s : Spelling) : tagsOf s.group = tagsOfItems s.items := by
  have hdrop : ∀ t ∈ tagsOfItems s.items, ('.' :: t).dropWhile (· = '.') = t := by
    intro t ht
    obtain ⟨c, cs, rfl, hc⟩ := head?_tag_ne t ht
    simp [hc]
  rw [tagsOf, words_group, List.map_map]
  exact (List.map_congr_left hdrop).trans (List.map_id _)

/-- Tags have no blanks and no braces in them. -/
theorem forall_mem_tagsOfItems : ∀ t ∈ tagsOfItems items, t ≠ [] ∧
    ∀ c ∈ t, isBlank c = false ∧ c ≠ '\x7b' ∧ c ≠ '\x7d' := by
  have hchar (item : Item) : ∀ c ∈ item.word, isBlank c = false ∧ c ≠ '\x7b' ∧ c ≠ '\x7d' := by
    intro c hc
    obtain ⟨hblank, -, hbraces⟩ := isTagChar_eq_true.mp (item.word_chars c hc)
    exact ⟨hblank, hbraces⟩
  cases items with
  | nil => exact fun t ht => absurd ht List.not_mem_nil
  | cons item items =>
    refine forall_mem_tagsFrom ⟨item.word_ne_nil, hchar item⟩
      (fun item => ⟨item.word_ne_nil, hchar item⟩) fun tag item htag => ⟨by simp, ?_⟩
    exact List.forall_mem_append.mpr ⟨htag.2, List.forall_mem_cons.mpr ⟨by decide, hchar item⟩⟩

-- ---------------------------------------------------------------------------
-- Tags against words
-- ---------------------------------------------------------------------------

namespace Spelling

variable (s : Spelling)

theorem tagsOf_eq_words_iff : tagsOf s.group = s.words ↔ s.Separated := by
  obtain ⟨item, items, hitems⟩ := List.exists_cons_of_ne_nil s.items_ne_nil
  rw [tagsOf_group, words, Separated, hitems, List.tail_cons]
  exact tagsFrom_eq_iff

theorem dot_notMem_tagsOf_iff : (∀ t ∈ tagsOf s.group, '.' ∉ t) ↔ s.Separated := by
  obtain ⟨item, items, hitems⟩ := List.exists_cons_of_ne_nil s.items_ne_nil
  rw [tagsOf_group, Separated, hitems, List.tail_cons, tagsOfItems, dot_notMem_tagsFrom_iff]
  exact and_iff_right (dot_notMem_word item)

/-- A tag that words were joined to is none of the words, which have no dots. -/
theorem mem_tagsOf_iff_mem_words_iff :
    (∀ t, t ∈ tagsOf s.group ↔ t ∈ s.words) ↔ s.Separated := by
  constructor
  · intro hall
    refine s.dot_notMem_tagsOf_iff.mp fun t ht => ?_
    obtain ⟨item, -, rfl⟩ := List.mem_map.mp ((hall t).mp ht)
    exact dot_notMem_word item
  · intro hseparated t
    rw [s.tagsOf_eq_words_iff.mpr hseparated]

/-- With a dot in front of each the tags spell the text that the words spell. -/
theorem flatMap_tagsOf : (tagsOf s.group).flatMap ('.' :: ·) = s.words.flatMap ('.' :: ·) := by
  obtain ⟨item, items, hitems⟩ := List.exists_cons_of_ne_nil s.items_ne_nil
  rw [tagsOf_group, words, hitems, tagsOfItems, flatMap_tagsFrom, List.map_cons, List.flatMap_cons,
    List.flatMap_map]
  rfl

end Spelling

-- ---------------------------------------------------------------------------
-- Tags of what is found
-- ---------------------------------------------------------------------------

/-- **Tags of the first fragment.** They are the words of its group in their order, none has a dot in it, and
the fragment has a tag exactly if it is one of the words: each of these holds exactly if there is a blank in
front of every word but the first. In any case no tag is empty or has a blank or a brace in it, and with a dot
in front of each the tags spell the same text as the words do. -/
theorem tags_iff {text : String} {fragment : Fragment} (h : find? text = some fragment) :
    ∃ s : Spelling, s.At (fragment.span text) text ∧
      (fragment.tags = s.words ↔ s.Separated) ∧
      ((∀ t ∈ fragment.tags, '.' ∉ t) ↔ s.Separated) ∧
      ((∀ tag : String, fragment.hasTag tag = true ↔ tag.toList ∈ s.words) ↔ s.Separated) ∧
      (∀ t ∈ fragment.tags, t ≠ [] ∧ ∀ c ∈ t, isBlank c = false ∧ c ≠ '\x7b' ∧ c ≠ '\x7d') ∧
      fragment.tags.flatMap ('.' :: ·) = s.words.flatMap ('.' :: ·) := by
  obtain ⟨s, -, hat, -, htags⟩ := exists_spelling_of_find? h
  have hhas : (∀ tag : String, fragment.hasTag tag = true ↔ tag.toList ∈ s.words) ↔
      ∀ t, t ∈ fragment.tags ↔ t ∈ s.words := by
    simp only [hasTag, List.contains_iff_mem]
    exact ⟨fun hall t => String.toList_ofList (l := t) ▸ hall (String.ofList t), fun hall tag => hall _⟩
  refine ⟨s, hat, ?_⟩
  rw [hhas, htags]
  refine ⟨s.tagsOf_eq_words_iff, s.dot_notMem_tagsOf_iff, s.mem_tagsOf_iff_mem_words_iff, ?_, s.flatMap_tagsOf⟩
  rw [tagsOf_group]
  exact forall_mem_tagsOfItems

/-- Two words with a blank between them are two tags. -/
theorem tags_iff_two :
    let text := "`f()`{.python .noexec}"
    let fragment : Fragment := ⟨[], "f()".toList, ["python".toList, "noexec".toList], []⟩
    find? text = some fragment ∧
      ∃ s : Spelling, s.At (0, 22) text ∧ s.Separated ∧ s.words = ["python".toList, "noexec".toList] ∧
        ∀ tag : String, fragment.hasTag tag = true ↔ tag.toList ∈ s.words := by
  intro text fragment
  have hfind : find? text = some fragment := by cbv
  obtain ⟨s, hat, hsame, hdots, hhas, -⟩ := tags_iff hfind
  have hseparated : s.Separated := hdots.mp (by decide)
  have hspan : fragment.span text = (0, 22) := by decide
  rw [hspan] at hat
  exact ⟨hfind, s, hat, hseparated, (hsame.mpr hseparated).symm, hhas.mpr hseparated⟩

/-- A fragment with a word directly behind another. -/
def Spelling.joinedWords : Spelling where
  code := ['x']
  items := [
    ⟨[], "python".toList, List.forall_mem_nil _, by decide +kernel, List.all_eq_true.mp (by decide +kernel)⟩,
    ⟨[' '], "plot".toList, List.forall_mem_singleton.mpr rfl, by decide +kernel,
      List.all_eq_true.mp (by decide +kernel)⟩,
    ⟨[], "noexec".toList, List.forall_mem_nil _, by decide +kernel, List.all_eq_true.mp (by decide +kernel)⟩]
  gap := []
  code_ne_nil := by decide
  code_ticks := by decide
  items_ne_nil := List.cons_ne_nil _ _
  gap_blank := List.forall_mem_nil _

/-- Of words that are joined neither is a tag: code that is not to run is found with the one tag that lets
it run. -/
theorem tags_ne_words :
    let text := "`x`{.python .plot.noexec}"
    ∃ fragment, find? text = some fragment ∧ Spelling.joinedWords.At (fragment.span text) text ∧
      "noexec".toList ∈ Spelling.joinedWords.words ∧ fragment.hasTag "noexec" = false ∧
      fragment.hasTag "python" = true ∧ fragment.tags ≠ Spelling.joinedWords.words := by
  refine ⟨⟨[], ['x'], ["python".toList, "plot.noexec".toList], []⟩, by cbv, ?_⟩
  decide +kernel

end Literate.Fragment
