import Literate.Proofs.Document.AttrText

/-!
# The grammar of attribute groups

What a group may look like, said without the reader: a brace, items with gaps before them, a gap and the
closing brace. `Item.Spelled` has one rule for each way to write an item. A word goes on as far as it can,
so a rule that ends in a word also speaks of what stands behind it; a quoted value ends by itself, and the
next item may follow at once.

The reader takes the same path through a text as a derivation does, one item at a time: an item that is
spelled is read whole (`Item.Spelled.readItem?`), and what is read was spelled (`Item.Spelled.of_readItem?`).

Main result: `readGroup?_eq_some_iff`, the reader accepts the groups of the grammar and nothing else.
-/

namespace Literate.Attr

-- ---------------------------------------------------------------------------
-- Groups
-- ---------------------------------------------------------------------------

/-- Blanks of ASCII, or nothing. -/
def IsGap (cs : List Char) : Prop :=
  ∀ c ∈ cs, Text.isAsciiBlank c = true

/-- `item.Spelled text after`: an item stands in a group as `text`, and `after` behind it. -/
inductive Item.Spelled : Item → List Char → List Char → Prop where
  | className {name after : List Char} (ne_nil : name ≠ [])
      (word : ∀ c ∈ name, isWordChar c = true) (ends : EndsWord after) :
      Spelled (.class name) ('.' :: name) after
  | identifier {name after : List Char} (ne_nil : name ≠ [])
      (word : ∀ c ∈ name, isWordChar c = true) (ends : EndsWord after) :
      Spelled (.id name) ('#' :: name) after
  | bare {key value after : List Char} (is_key : KeyChars key)
      (word : ∀ c ∈ value, isWordChar c = true) (unquoted : value.head? ≠ some '"')
      (ends : EndsWord after) :
      Spelled (.pair key value) (key ++ '=' :: value) after
  | quoted {key value after : List Char} (is_key : KeyChars key) (no_quote : '"' ∉ value) :
      Spelled (.pair key value) (key ++ '=' :: '"' :: (value ++ ['"'])) after

/-- `ItemsSpelled items cs rest`: the text `cs` is items, each behind a gap, and the closing brace; `rest`
stands behind that. -/
inductive ItemsSpelled : List Item → List Char → List Char → Prop where
  | close {gap rest : List Char} (is_gap : IsGap gap) : ItemsSpelled [] (gap ++ '\x7d' :: rest) rest
  | item {gap text after rest : List Char} {item : Item} {items : List Item} (is_gap : IsGap gap)
      (spelled : item.Spelled text after) (later : ItemsSpelled items after rest) :
      ItemsSpelled (item :: items) (gap ++ (text ++ after)) rest

/-- A group at the front of a text, and what follows it. -/
def IsGroup (items : List Item) (cs rest : List Char) : Prop :=
  ∃ body, cs = '\x7b' :: body ∧ ItemsSpelled items body rest

namespace Item

def className? : Item → Option String
  | .class name => some (String.ofList name)
  | _ => none

def id? : Item → Option String
  | .id name => some (String.ofList name)
  | _ => none

def pair? : Item → Option (String × String)
  | .pair key value => some (String.ofList key, String.ofList value)
  | _ => none

end Item

/-- The attributes that items make up: the last identifier, and all classes and pairs in their order. -/
def ofItems (items : List Item) : Attr where
  id := (items.filterMap Item.id?).getLastD ""
  classes := items.filterMap Item.className?
  pairs := items.filterMap Item.pair?

-- ---------------------------------------------------------------------------
-- What is read was spelled
-- ---------------------------------------------------------------------------

/-- A value that is read stood between quotes, or was a word. -/
theorem spelled_of_readValue? {cs value rest : List Char} (h : readValue? cs = some (value, rest)) :
    (cs = '"' :: (value ++ '"' :: rest) ∧ '"' ∉ value) ∨
      (cs = value ++ rest ∧ (∀ c ∈ value, isWordChar c = true) ∧ value.head? ≠ some '"' ∧
        EndsWord rest) := by
  unfold readValue? at h
  split at h
  · rename_i body
    split at h
    · cases h
    · rename_i quote rest' hdrop
      cases h
      -- The value goes up to the next quote, so it has none.
      refine .inl ⟨congrArg _ (Text.eq_append_of_dropWhile_ne hdrop), fun hmem => ?_⟩
      simpa using List.mem_takeWhile_imp hmem
  · rename_i hopen
    cases h
    refine .inr ⟨(wordOf_append_drop cs).symm, fun c hc => isWordChar_of_mem_wordOf hc, ?_,
      endsWord_drop_wordOf cs⟩
    cases cs with
    | nil => exact Option.some_ne_none _ ∘ Eq.symm
    | cons c cs =>
      intro hhead
      rw [wordOf, List.takeWhile_cons] at hhead
      split at hhead
      · cases hhead
        exact hopen cs rfl
      · cases hhead

theorem readItem?_close_iff {cs rest : List Char} :
    readItem? cs = some (.close, rest) ↔ cs = '\x7d' :: rest := by
  constructor
  · intro h
    cases Item.Taken.of_readItem? h
    rfl
  · rintro rfl
    rfl

/-- An item that is read was spelled by one of the rules. -/
theorem Item.Spelled.of_readItem? {item : Item} {cs rest : List Char}
    (h : readItem? cs = some (item, rest)) (hitem : item ≠ .close) :
    ∃ text, cs = text ++ rest ∧ item.Spelled text rest := by
  cases Item.Taken.of_readItem? h with
  | close => exact absurd rfl hitem
  | className hne hword hends => exact ⟨_, rfl, .className hne hword hends⟩
  | identifier hne hword hends => exact ⟨_, rfl, .identifier hne hword hends⟩
  | pair hkey hvalue =>
    rcases spelled_of_readValue? hvalue with ⟨rfl, hquote⟩ | ⟨rfl, hword, hopen, hends⟩
    · exact ⟨_, by simp, .quoted hkey hquote⟩
    · exact ⟨_, by simp, .bare hkey hword hopen hends⟩

/-- Items that are read were spelled in their order, and they are what the attributes come from. -/
theorem ItemsSpelled.of_readItems {attr result : Attr} {cs rest : List Char}
    (h : readItems attr cs = some (result, rest)) :
    ∃ items, ItemsSpelled items cs rest ∧ result = items.foldl addItem attr := by
  have hgap (cs : List Char) : IsGap (cs.takeWhile Text.isAsciiBlank) :=
    fun c hc => List.mem_takeWhile_imp hc
  fun_induction readItems attr cs with
  | case1 attr cs hread => cases h
  | case2 attr cs rest' hread =>
    cases h
    refine ⟨[], ?_, rfl⟩
    rw [← List.takeWhile_append_dropWhile (p := Text.isAsciiBlank) (l := cs),
      readItem?_close_iff.mp hread]
    exact .close (hgap cs)
  | case3 attr cs item rest' hclose hread ih =>
    obtain ⟨items, hitems, hresult⟩ := ih h
    obtain ⟨text, htext, hspelled⟩ := Item.Spelled.of_readItem? hread hclose
    refine ⟨item :: items, ?_, hresult⟩
    rw [← List.takeWhile_append_dropWhile (p := Text.isAsciiBlank) (l := cs), htext]
    exact .item (hgap cs) hspelled hitems

-- ---------------------------------------------------------------------------
-- What is spelled is read
-- ---------------------------------------------------------------------------

/-- An item that is spelled is taken whole. -/
theorem Item.Spelled.readItem? {item : Item} {text after : List Char}
    (h : item.Spelled text after) : readItem? (text ++ after) = some (item, after) := by
  cases h with
  | className hne hword hends =>
    simp only [List.cons_append, Attr.readItem?, wordOf_append hword hends,
      List.isEmpty_eq_false_iff.mpr hne, List.drop_left]
    rfl
  | identifier hne hword hends =>
    simp only [List.cons_append, Attr.readItem?, wordOf_append hword hends,
      List.isEmpty_eq_false_iff.mpr hne, List.drop_left]
    rfl
  | @bare key value after hkey hword hopen hends =>
    have hvalue : readValue? (value ++ after) = some (value, after) := by
      -- A word in which no quote comes first is not taken for a text in quotes.
      have hquote : ∀ cs, value ++ after ≠ '"' :: cs := by
        intro cs hcs
        cases value with
        | nil =>
          rw [List.nil_append] at hcs
          have hchar : isWordChar '"' = false := hends '"' (by rw [hcs]; rfl)
          exact absurd hchar (by decide)
        | cons c value => exact hopen (congrArg List.head? hcs)
      rw [readValue?.eq_def]
      split
      · rename_i cs hcs
        exact absurd hcs (hquote cs)
      · rw [wordOf_append hword hends, List.drop_left]
    rw [List.append_assoc, List.cons_append, readItem?_key hkey, hvalue]
    rfl
  | @quoted key value after hkey hquote =>
    obtain ⟨rest, hvalue, hrest⟩ := readValue?_quoted value after
    have htext : key ++ '=' :: '"' :: (value ++ ['"']) ++ after =
        key ++ '=' :: '"' :: (value ++ '"' :: after) := by
      simp
    rw [htext, readItem?_key hkey, hvalue, hrest hquote, takeWhile_ne_quote hquote]
    rfl

theorem Item.Spelled.ne_close {item : Item} {text after : List Char}
    (h : item.Spelled text after) : item ≠ .close := by
  rintro rfl
  cases h

/-- No item begins with a blank. -/
theorem Item.Spelled.dropWhile_append {item : Item} {text after : List Char}
    (h : item.Spelled text after) :
    (text ++ after).dropWhile Text.isAsciiBlank = text ++ after := by
  cases h with
  | className => rfl
  | identifier => rfl
  | bare hkey => rw [List.append_assoc, hkey.dropWhile_append]
  | quoted hkey => rw [List.append_assoc, hkey.dropWhile_append]

theorem IsGap.dropWhile_append {gap cs : List Char} (h : IsGap gap) :
    (gap ++ cs).dropWhile Text.isAsciiBlank = cs.dropWhile Text.isAsciiBlank :=
  List.dropWhile_append_of_pos h

/-- Items that are spelled are read, in their order. -/
theorem ItemsSpelled.readItems {items : List Item} {cs rest : List Char}
    (h : ItemsSpelled items cs rest) (attr : Attr) :
    readItems attr cs = some (items.foldl addItem attr, rest) := by
  induction h generalizing attr with
  | close hgap =>
    rw [readItems_eq, hgap.dropWhile_append]
    rfl
  | item hgap hspelled later ih =>
    have hread := hspelled.readItem?
    rw [← hspelled.dropWhile_append, ← hgap.dropWhile_append] at hread
    have hclose := hspelled.ne_close
    rw [readItems_of_readItem? hread hclose, ih, List.foldl_cons]

-- ---------------------------------------------------------------------------
-- Groups that are read
-- ---------------------------------------------------------------------------

theorem ItemsSpelled.ne_nil {items : List Item} {cs rest : List Char} (h : ItemsSpelled items cs rest) : cs ≠ [] := by
  induction h with
  | close => simp
  | item _ _ _ ih => simp [ih]

/-- Items are spelled the same whatever stands behind the closing brace. -/
theorem ItemsSpelled.append {items : List Item} {cs rest : List Char} (h : ItemsSpelled items cs rest)
    (more : List Char) : ItemsSpelled items (cs ++ more) (rest ++ more) := by
  induction h with
  | @close gap rest is_gap =>
    have hclose : ItemsSpelled [] (gap ++ '\x7d' :: (rest ++ more)) (rest ++ more) := .close is_gap
    rwa [← List.cons_append, ← List.append_assoc] at hclose
  | @item gap text after rest item items is_gap spelled later ih =>
    have hends (ends : EndsWord after) : EndsWord (after ++ more) := by
      rwa [EndsWord, List.head?_append_of_ne_nil _ later.ne_nil]
    have hspelled : item.Spelled text (after ++ more) := by
      cases spelled with
      | className ne_nil word ends => exact .className ne_nil word (hends ends)
      | identifier ne_nil word ends => exact .identifier ne_nil word (hends ends)
      | bare is_key word unquoted ends => exact .bare is_key word unquoted (hends ends)
      | quoted is_key no_quote => exact .quoted is_key no_quote
    have hitem := ItemsSpelled.item is_gap hspelled ih
    rwa [← List.append_assoc, ← List.append_assoc, List.append_assoc gap] at hitem

/-- Items added one after another. -/
theorem foldl_addItem (items : List Item) (attr : Attr) :
    items.foldl addItem attr =
      ⟨(items.filterMap Item.id?).getLastD attr.id, attr.classes ++ items.filterMap Item.className?,
        attr.pairs ++ items.filterMap Item.pair?⟩ := by
  induction items generalizing attr with
  | nil => simp
  | cons item items ih =>
    rw [List.foldl_cons, ih]
    cases item <;>
      simp only [addItem, List.filterMap_cons, Item.id?, Item.className?, Item.pair?,
        List.getLastD_cons, List.append_assoc, List.singleton_append]

theorem foldl_addItem_empty (items : List Item) : items.foldl addItem empty = ofItems items := by
  rw [foldl_addItem]
  rfl

/-- The reader accepts the groups of the grammar, gives the attributes that their items make up, and
leaves what follows the closing brace. -/
theorem readGroup?_eq_some_iff {cs rest : List Char} {attr : Attr} :
    readGroup? cs = some (attr, rest) ↔ ∃ items, IsGroup items cs rest ∧ attr = ofItems items := by
  constructor
  · intro h
    unfold readGroup? at h
    split at h
    · rename_i body
      obtain ⟨items, hitems, hattr⟩ := ItemsSpelled.of_readItems h
      exact ⟨items, ⟨body, rfl, hitems⟩, by rw [hattr, foldl_addItem_empty]⟩
    · cases h
  · rintro ⟨items, ⟨body, rfl, hitems⟩, rfl⟩
    rw [readGroup?, hitems.readItems, foldl_addItem_empty]

/-- What stands behind a group is left as it is. -/
theorem readGroup?_append {cs rest : List Char} {attr : Attr} (h : readGroup? cs = some (attr, rest))
    (more : List Char) : readGroup? (cs ++ more) = some (attr, rest ++ more) := by
  obtain ⟨items, ⟨body, rfl, hitems⟩, rfl⟩ := readGroup?_eq_some_iff.mp h
  exact readGroup?_eq_some_iff.mpr ⟨items, ⟨body ++ more, rfl, hitems.append more⟩, rfl⟩

theorem Readable.splitGroup?_show {attr : Attr} (h : attr.Readable) (next : String) :
    splitGroup? (attr.show ++ next) = some (attr, next) := by
  have hshow : readGroup? attr.show.toList = some (attr, []) := (readGroup?_show attr).trans h.readItems
  rw [splitGroup?, String.toList_append, readGroup?_append hshow next.toList]
  simp

end Literate.Attr
