import Literate.Document.Attr
import Literate.Proofs.Text.Runs
import Mathlib

/-!
# Attributes and their text

The written form of a group is not always one that reads back: there are no escapes, so an identifier
with a blank in it ends early, and a value with a quote in it closes itself. `Attr.Readable` says which
attributes can be read back, and `parse?_show` that it is these and no others.

Reading goes item by item. An item that is readable is taken whole, whatever item comes next
(`readItem?_written`). In the other direction, an item that is read stands in the text by one of four
rules (`Item.Taken`), so it is never one that could not be written (`Wellformed.of_readItems`), and what
was read once stays (`pairs_prefix_of_readItems`): so an attribute can only come back if its items are
read one by one as they are, and a value with a quote is not.

Main results:

* `readItems_written`: readable items are read back, in their order.
* `parse?_show`: exactly the readable attributes are what their text says.
-/

namespace Literate.Attr

-- ---------------------------------------------------------------------------
-- Readable attributes
-- ---------------------------------------------------------------------------

/-- A text without blanks and closing braces. -/
def IsWord (s : String) : Prop :=
  ∀ c ∈ s.toList, Text.isBlank c = false ∧ c ≠ '\x7d'

/-- A key that does not end early and is not taken for a class or an identifier. -/
structure IsKey (s : String) : Prop where
  word : IsWord s
  ne_empty : s ≠ ""
  no_equals : '=' ∉ s.toList
  no_dot : s.toList.head? ≠ some '.'
  no_sign : s.toList.head? ≠ some '#'

/-- Attributes that can come out of a group. -/
structure Wellformed (attr : Attr) : Prop where
  id : IsWord attr.id
  classes : ∀ name ∈ attr.classes, name ≠ "" ∧ IsWord name
  keys : ∀ pair ∈ attr.pairs, IsKey pair.1

/-- Attributes whose text can be read back. -/
structure Readable (attr : Attr) : Prop extends Wellformed attr where
  values : ∀ pair ∈ attr.pairs, '"' ∉ pair.2.toList

theorem eq_empty_of_isEmpty {attr : Attr} (h : attr.isEmpty = true) : attr = empty := by
  simp only [isEmpty, Bool.and_eq_true, String.isEmpty_iff, List.isEmpty_iff] at h
  cases attr
  simp_all [empty]

/-- Whether a text has no blanks and no closing braces in it. -/
def isWord (s : String) : Bool :=
  s.toList.all fun c => !Text.isBlank c && c ≠ '\x7d'

/-- Whether a text is a key. -/
def isKey (s : String) : Bool :=
  isWord s && s ≠ "" && !s.toList.contains '=' && s.toList.head? ≠ some '.' && s.toList.head? ≠ some '#'

/-- Whether attributes are readable. -/
def isReadable (attr : Attr) : Bool :=
  isWord attr.id && attr.classes.all (fun name => name ≠ "" && isWord name) &&
    attr.pairs.all fun pair => isKey pair.1 && !pair.2.toList.contains '"'

theorem isWord_iff {s : String} : isWord s = true ↔ IsWord s := by
  simp [isWord, IsWord]

theorem isKey_iff {s : String} : isKey s = true ↔ IsKey s := by
  simp only [isKey, Bool.and_eq_true, isWord_iff, decide_eq_true_eq, List.contains_eq_mem, Bool.not_eq_true',
    decide_eq_false_iff_not]
  exact ⟨fun ⟨⟨⟨⟨word, ne_empty⟩, no_equals⟩, no_dot⟩, no_sign⟩ => ⟨word, ne_empty, no_equals, no_dot, no_sign⟩,
    fun h => ⟨⟨⟨⟨h.word, h.ne_empty⟩, h.no_equals⟩, h.no_dot⟩, h.no_sign⟩⟩

theorem isReadable_iff {attr : Attr} : attr.isReadable = true ↔ attr.Readable := by
  simp only [isReadable, Bool.and_eq_true, isWord_iff, isKey_iff, List.all_eq_true, decide_eq_true_eq]
  exact ⟨fun ⟨⟨id, classes⟩, pairs⟩ => ⟨⟨id, classes, fun pair hpair => (pairs pair hpair).1⟩,
      fun pair hpair => by simpa using (pairs pair hpair).2⟩,
    fun h => ⟨⟨h.id, h.classes⟩, fun pair hpair => ⟨h.keys pair hpair, by simpa using h.values pair hpair⟩⟩⟩

-- ---------------------------------------------------------------------------
-- Items and their text
-- ---------------------------------------------------------------------------

/-- The identifier and the classes as items. -/
def nameItems (attr : Attr) : List Item :=
  (if attr.id.isEmpty then [] else [.id attr.id.toList]) ++
    attr.classes.map fun name => .class name.toList

def pairItem (pair : String × String) : Item :=
  .pair pair.1.toList pair.2.toList

/-- The items of a group: the identifier, the classes, the pairs. -/
def itemList (attr : Attr) : List Item :=
  attr.nameItems ++ attr.pairs.map pairItem

def Item.written : Item → List Char
  | .close => []
  | .class name => '.' :: name
  | .id name => '#' :: name
  | .pair key value => key ++ '=' :: '"' :: value ++ ['"']

/-- Items as they stand in a group behind another: each after a space, and the closing brace. -/
def writtenItems : List Item → List Char
  | [] => ['\x7d']
  | item :: items => ' ' :: item.written ++ writtenItems items

/-- A list that begins with something that is no part of a word. -/
def EndsWord (cs : List Char) : Prop :=
  ∀ c ∈ cs.head?, isWordChar c = false

theorem isWordChar_eq_true {c : Char} :
    isWordChar c = true ↔ Text.isBlank c = false ∧ c ≠ '\x7d' := by
  simp [isWordChar]

theorem endsWord_writtenItems (items : List Item) : EndsWord (writtenItems items) := by
  cases items with
  | nil => intro c hc; cases hc; decide
  | cons item items => intro c hc; cases hc; decide

/-- A word is read up to what ends it. -/
theorem wordOf_append {name rest : List Char} (hname : ∀ c ∈ name, isWordChar c = true)
    (hrest : EndsWord rest) : wordOf (name ++ rest) = name := by
  rw [wordOf, List.takeWhile_append_of_pos hname]
  cases rest with
  | nil => simp
  | cons c rest =>
    have hc : isWordChar c = false := hrest c rfl
    simp [hc]

-- ---------------------------------------------------------------------------
-- Reading one item
-- ---------------------------------------------------------------------------

/-- A key in the text of a group. -/
structure KeyChars (key : List Char) : Prop where
  word : ∀ c ∈ key, isWordChar c = true
  ne_nil : key ≠ []
  no_equals : '=' ∉ key
  no_dot : key.head? ≠ some '.'
  no_sign : key.head? ≠ some '#'

/-- An item that its text can be read back as. -/
def Item.Readable : Item → Prop
  | .close => False
  | .class name | .id name => name ≠ [] ∧ ∀ c ∈ name, isWordChar c = true
  | .pair key value => KeyChars key ∧ '"' ∉ value

/-- What does not begin with another mark is read as a pair. -/
theorem readItem?_cons {c : Char} {cs : List Char} (hclose : c ≠ '\x7d') (hdot : c ≠ '.')
    (hsign : c ≠ '#') :
    readItem? (c :: cs) =
      match (c :: cs).drop ((c :: cs).takeWhile (· ≠ '=')).length with
      | [] => none
      | _ :: afterKey =>
        if ((c :: cs).takeWhile (· ≠ '=')).isEmpty || !((c :: cs).takeWhile (· ≠ '=')).all isWordChar
        then none
        else (readValue? afterKey).map fun (value, rest) =>
          (.pair ((c :: cs).takeWhile (· ≠ '=')) value, rest) := by
  unfold readItem?
  split
  · rename_i h; cases h
  · rename_i h; cases h; exact absurd rfl hclose
  · rename_i h; cases h; exact absurd rfl hdot
  · rename_i h; cases h; exact absurd rfl hsign
  · rfl

/-- A key is read up to its `=`, and after it the value. -/
theorem readItem?_key {key rest : List Char} (hkey : KeyChars key) :
    readItem? (key ++ '=' :: rest) =
      (readValue? rest).map fun (value, rest) => (.pair key value, rest) := by
  have htake : (key ++ '=' :: rest).takeWhile (· ≠ '=') = key := by
    rw [List.takeWhile_append_of_pos]
    · simp
    · intro c hc
      simp only [ne_eq, decide_eq_true_eq]
      rintro rfl
      exact hkey.no_equals hc
  have hall : key.all isWordChar = true := List.all_eq_true.mpr hkey.word
  cases key with
  | nil => exact absurd rfl hkey.ne_nil
  | cons c key =>
    have hc : isWordChar c = true := hkey.word c List.mem_cons_self
    have hclose : c ≠ '\x7d' := (isWordChar_eq_true.mp hc).2
    have hdot : c ≠ '.' := fun h => hkey.no_dot (congrArg some h)
    have hsign : c ≠ '#' := fun h => hkey.no_sign (congrArg some h)
    rw [List.cons_append, readItem?_cons hclose hdot hsign, ← List.cons_append, htake, List.drop_left,
      hall]
    rfl

theorem takeWhile_ne_quote {value : List Char} (h : '"' ∉ value) :
    value.takeWhile (· ≠ '"') = value := by
  rw [List.takeWhile_eq_self_iff]
  intro c hc
  simp only [ne_eq, decide_eq_true_eq]
  rintro rfl
  exact h hc

/-- A value in quotes is read up to the next quote, which may be one of its own. -/
theorem readValue?_quoted (value rest : List Char) :
    ∃ after, readValue? ('"' :: (value ++ '"' :: rest)) = some (value.takeWhile (· ≠ '"'), after) ∧
      ('"' ∉ value → after = rest) := by
  induction value with
  | nil => exact ⟨rest, by simp [readValue?], fun _ => rfl⟩
  | cons c value ih =>
    obtain ⟨after, hafter, hrest⟩ := ih
    by_cases hc : c = '"'
    · subst hc
      exact ⟨value ++ '"' :: rest, by simp [readValue?], fun h => absurd List.mem_cons_self h⟩
    · refine ⟨after, ?_, fun h => hrest fun hmem => h (List.mem_cons_of_mem _ hmem)⟩
      simp only [readValue?, List.cons_append, List.dropWhile_cons, List.takeWhile_cons, ne_eq, hc,
        not_false_eq_true, decide_true, if_true] at hafter ⊢
      split at hafter
      · cases hafter
      · simp_all

/-- A pair is read with its value up to the first quote. -/
theorem readItem?_pair {key : List Char} (hkey : KeyChars key) (value : List Char)
    (items : List Item) :
    ∃ after, readItem? ((Item.pair key value).written ++ writtenItems items) =
        some (.pair key (value.takeWhile (· ≠ '"')), after) ∧
      ('"' ∉ value → after = writtenItems items) := by
  obtain ⟨after, hvalue, hafter⟩ := readValue?_quoted value (writtenItems items)
  have htext : (Item.pair key value).written ++ writtenItems items =
      key ++ '=' :: '"' :: (value ++ '"' :: writtenItems items) := by
    simp [Item.written]
  refine ⟨after, ?_, hafter⟩
  rw [htext, readItem?_key hkey, hvalue]
  rfl

/-- An item that is readable is taken whole. -/
theorem readItem?_written {item : Item} (hitem : item.Readable) (items : List Item) :
    readItem? (item.written ++ writtenItems items) = some (item, writtenItems items) := by
  have hends := endsWord_writtenItems items
  cases item with
  | close => exact hitem.elim
  | «class» name =>
    obtain ⟨hne, hword⟩ := hitem
    simp only [Item.written, List.cons_append, readItem?, wordOf_append hword hends,
      List.isEmpty_eq_false_iff.mpr hne, List.drop_left]
    rfl
  | id name =>
    obtain ⟨hne, hword⟩ := hitem
    simp only [Item.written, List.cons_append, readItem?, wordOf_append hword hends,
      List.isEmpty_eq_false_iff.mpr hne, List.drop_left]
    rfl
  | pair key value =>
    obtain ⟨hkey, hvalue⟩ := hitem
    obtain ⟨after, hread, hafter⟩ := readItem?_pair hkey value items
    rw [hread, hafter hvalue, takeWhile_ne_quote hvalue]

-- ---------------------------------------------------------------------------
-- Reading items
-- ---------------------------------------------------------------------------

theorem readItems_eq (attr : Attr) (cs : List Char) :
    readItems attr cs =
      match readItem? (cs.dropWhile Text.isAsciiBlank) with
      | none => none
      | some (.close, rest) => some (attr, rest)
      | some (item, rest) => readItems (attr.addItem item) rest := by
  rw [readItems]
  split <;> simp_all

/-- One more item, which is not the closing brace. -/
theorem readItems_of_readItem? {attr : Attr} {item : Item} {cs rest : List Char}
    (h : readItem? (cs.dropWhile Text.isAsciiBlank) = some (item, rest)) (hitem : item ≠ .close) :
    readItems attr cs = readItems (attr.addItem item) rest := by
  rw [readItems_eq, h]
  cases item with
  | close => exact absurd rfl hitem
  | _ => rfl

theorem isBlank_of_isAsciiBlank {c : Char} (h : Text.isAsciiBlank c = true) :
    Text.isBlank c = true := by
  simp only [Text.isAsciiBlank, Bool.or_eq_true, decide_eq_true_eq] at h
  rcases h with (((rfl | rfl) | rfl) | rfl) | rfl <;> decide

/-- No key begins with a blank. -/
theorem KeyChars.dropWhile_append {key : List Char} (hkey : KeyChars key) (rest : List Char) :
    (key ++ rest).dropWhile Text.isAsciiBlank = key ++ rest := by
  cases key with
  | nil => exact absurd rfl hkey.ne_nil
  | cons c key =>
    have hword := isWordChar_eq_true.mp (hkey.word c List.mem_cons_self)
    have hblank : Text.isAsciiBlank c = false := by
      by_contra h
      rw [Bool.not_eq_false] at h
      rw [isBlank_of_isAsciiBlank h] at hword
      exact Bool.noConfusion hword.1
    simp [hblank]

/-- The blanks before an item are passed over, and it has none of its own. -/
theorem dropWhile_pair {key : List Char} (hkey : KeyChars key) (value : List Char)
    (items : List Item) :
    (writtenItems (.pair key value :: items)).dropWhile Text.isAsciiBlank =
      (Item.pair key value).written ++ writtenItems items := by
  have htext : writtenItems (.pair key value :: items) =
      ' ' :: (key ++ ('=' :: '"' :: value ++ ['"'] ++ writtenItems items)) := by
    simp [writtenItems, Item.written]
  rw [htext, List.dropWhile_cons_of_pos (by decide), hkey.dropWhile_append]
  simp [Item.written]

theorem Item.Readable.dropWhile_writtenItems {item : Item} (hitem : item.Readable)
    (items : List Item) :
    (writtenItems (item :: items)).dropWhile Text.isAsciiBlank =
      item.written ++ writtenItems items := by
  cases item with
  | close => exact hitem.elim
  | «class» name => rfl
  | id name => rfl
  | pair key value => exact dropWhile_pair hitem.1 value items

/-- Readable items are read back, in their order, whatever items come after them. -/
theorem readItems_written_append {items : List Item} (hitems : ∀ item ∈ items, item.Readable)
    (later : List Item) (attr : Attr) :
    readItems attr (writtenItems (items ++ later)) =
      readItems (items.foldl addItem attr) (writtenItems later) := by
  induction items generalizing attr with
  | nil => rfl
  | cons item items ih =>
    obtain ⟨hitem, hitems⟩ := List.forall_mem_cons.mp hitems
    have hread : readItem? ((writtenItems (item :: (items ++ later))).dropWhile Text.isAsciiBlank) =
        some (item, writtenItems (items ++ later)) := by
      rw [hitem.dropWhile_writtenItems, readItem?_written hitem]
    have hclose : item ≠ .close := by
      rintro rfl
      exact hitem
    rw [List.cons_append, readItems_of_readItem? hread hclose, ih hitems, List.foldl_cons]

/-- Readable items with nothing after them make up a group. -/
theorem readItems_written {items : List Item} (hitems : ∀ item ∈ items, item.Readable) (attr : Attr) :
    readItems attr (writtenItems items) = some (items.foldl addItem attr, []) := by
  have happend := readItems_written_append hitems [] attr
  rw [List.append_nil] at happend
  rw [happend, readItems_eq]
  rfl

-- ---------------------------------------------------------------------------
-- The text of a group
-- ---------------------------------------------------------------------------

theorem foldl_class (names : List String) (attr : Attr) :
    (names.map fun name => Item.class name.toList).foldl addItem attr =
      { attr with classes := attr.classes ++ names } := by
  induction names generalizing attr with
  | nil => simp
  | cons name names ih => simp [ih, addItem]

theorem foldl_pair (pairs : List (String × String)) (attr : Attr) :
    (pairs.map pairItem).foldl addItem attr = { attr with pairs := attr.pairs ++ pairs } := by
  induction pairs generalizing attr with
  | nil => simp
  | cons pair pairs ih => simp [ih, addItem, pairItem]

theorem foldl_nameItems (attr : Attr) :
    attr.nameItems.foldl addItem empty = { attr with pairs := [] } := by
  rw [nameItems, List.foldl_append, foldl_class]
  obtain ⟨id, classes, pairs⟩ := attr
  by_cases hid : id = ""
  · subst hid
    rfl
  · have hempty : id.isEmpty = false := by simpa using hid
    simp [hempty, addItem, empty]

/-- The items of an attribute make it up again. -/
theorem foldl_itemList (attr : Attr) : attr.itemList.foldl addItem empty = attr := by
  rw [itemList, List.foldl_append, foldl_nameItems, foldl_pair]
  rfl

theorem toList_items (attr : Attr) :
    attr.items.map String.toList = attr.itemList.map Item.written := by
  rw [items, itemList, nameItems]
  cases attr.id.isEmpty <;> simp [Item.written, pairItem, Function.comp_def]

/-- Items behind one another are those with spaces between them, but for the space before the first. -/
theorem cons_intercalate_written (item : Item) (items : List Item) :
    ' ' :: ([' '].intercalate ((item :: items).map Item.written) ++ ['\x7d']) =
      writtenItems (item :: items) := by
  induction items generalizing item with
  | nil => simp [writtenItems]
  | cons next items ih =>
    have hnext := ih next
    rw [List.map_cons, List.map_cons, List.intercalate_cons_cons, ← List.map_cons, writtenItems, ← hnext]
    simp

theorem toList_show (attr : Attr) :
    attr.show.toList = '\x7b' :: ([' '].intercalate (attr.itemList.map Item.written) ++ ['\x7d']) := by
  rw [Attr.show, String.toList_append, String.toList_append, String.toList_intercalate, toList_items]
  rfl

/-- Reading the text of a group is reading its items. -/
theorem readGroup?_show (attr : Attr) :
    readGroup? attr.show.toList = readItems empty (writtenItems attr.itemList) := by
  rw [toList_show, readGroup?]
  cases attr.itemList with
  | nil => rfl
  | cons item items =>
    rw [readItems_eq, readItems_eq, ← cons_intercalate_written]
    rfl

/-- The text of a group has no blanks at its ends. -/
theorem trimBlanks_show (attr : Attr) : Text.trimBlanks attr.show.toList = attr.show.toList := by
  have hfront : attr.show.toList.dropWhile Text.isBlank = attr.show.toList := by
    rw [toList_show]
    rfl
  rw [Text.trimBlanks, hfront, Text.dropEndWhile, toList_show, List.reverse_cons, List.reverse_append]
  simp [show Text.isBlank '\x7d' = false by decide]

/-- A text of items reads back as `attr` if its items do, with nothing left. -/
theorem parse?_show_eq_some (attr : Attr) {result : Attr} :
    parse? attr.show = some result ↔
      readItems empty (writtenItems attr.itemList) = some (result, []) := by
  rw [parse?, parseChars?, trimBlanks_show, readGroup?_show]
  rcases readItems empty (writtenItems attr.itemList) with _ | ⟨read, _ | ⟨c, rest⟩⟩ <;> simp

-- ---------------------------------------------------------------------------
-- What is read
-- ---------------------------------------------------------------------------

theorem isWord_ofList {cs : List Char} (h : ∀ c ∈ cs, isWordChar c = true) :
    IsWord (String.ofList cs) := by
  intro c hc
  rw [String.toList_ofList] at hc
  exact isWordChar_eq_true.mp (h c hc)

theorem ofList_ne_empty {cs : List Char} (h : cs ≠ []) : String.ofList cs ≠ "" := by
  simpa using h

theorem isKey_ofList {cs : List Char} (h : KeyChars cs) : IsKey (String.ofList cs) where
  word := isWord_ofList h.word
  ne_empty := ofList_ne_empty h.ne_nil
  no_equals := by rw [String.toList_ofList]; exact h.no_equals
  no_dot := by rw [String.toList_ofList]; exact h.no_dot
  no_sign := by rw [String.toList_ofList]; exact h.no_sign

theorem isWordChar_of_mem_wordOf {c : Char} {cs : List Char} (h : c ∈ wordOf cs) :
    isWordChar c = true :=
  List.mem_takeWhile_imp h

/-- What an item that was read is made of. Its value is anything. -/
def Item.Wellformed : Item → Prop
  | .close => True
  | .class name | .id name => name ≠ [] ∧ ∀ c ∈ name, isWordChar c = true
  | .pair key _ => KeyChars key

/-- What stands behind the longest word at the front of a text does not go on with it. -/
theorem endsWord_drop_wordOf (cs : List Char) : EndsWord (cs.drop (wordOf cs).length) := by
  intro c hc
  induction cs with
  | nil => cases hc
  | cons d cs ih =>
    by_cases hd : isWordChar d = true
    · rw [wordOf, List.takeWhile_cons_of_pos hd] at hc
      exact ih hc
    · rw [wordOf, List.takeWhile_cons_of_neg hd] at hc
      cases hc
      exact Bool.eq_false_iff.mpr hd

theorem wordOf_append_drop (cs : List Char) : wordOf cs ++ cs.drop (wordOf cs).length = cs :=
  List.prefix_iff_eq_append.mp (List.takeWhile_prefix isWordChar)

/-- A text with an `=` in it is what stands before the first one, and what stands behind that. -/
theorem eq_append_equals {cs behind : List Char} {c : Char}
    (h : cs.drop (cs.takeWhile (· ≠ '=')).length = c :: behind) :
    cs = cs.takeWhile (· ≠ '=') ++ '=' :: behind := by
  have hdrop : cs.dropWhile (· ≠ '=') = c :: behind := by
    have hsame : cs.takeWhile (· ≠ '=') ++ cs.dropWhile (· ≠ '=') =
        cs.takeWhile (· ≠ '=') ++ cs.drop (cs.takeWhile (· ≠ '=')).length := by
      rw [List.takeWhile_append_dropWhile, List.prefix_iff_eq_append.mp (List.takeWhile_prefix _)]
    rw [← h]
    exact List.append_cancel_left hsame
  exact Text.eq_append_of_dropWhile_ne hdrop

/-- What stands before the first `=` is a key, if it has only characters of words, and none of the other
marks in front. -/
theorem keyChars_takeWhile {cs : List Char} (hne : cs.takeWhile (· ≠ '=') ≠ [])
    (hword : ∀ c ∈ cs.takeWhile (· ≠ '='), isWordChar c = true) (hdot : ∀ cs', cs ≠ '.' :: cs')
    (hsign : ∀ cs', cs ≠ '#' :: cs') : KeyChars (cs.takeWhile (· ≠ '=')) := by
  -- The key begins as the text does.
  have hhead : ∀ c, (cs.takeWhile (· ≠ '=')).head? = some c → ∃ cs', cs = c :: cs' := by
    intro c hc
    cases cs with
    | nil => cases hc
    | cons d cs' =>
      rw [List.takeWhile_cons] at hc
      split at hc
      · exact ⟨cs', by rw [← Option.some.inj hc]⟩
      · cases hc
  refine ⟨hword, hne, fun hmem => ?_, fun hc => ?_, fun hc => ?_⟩
  · simpa using List.mem_takeWhile_imp hmem
  · obtain ⟨cs', hcs⟩ := hhead _ hc
    exact hdot cs' hcs
  · obtain ⟨cs', hcs⟩ := hhead _ hc
    exact hsign cs' hcs

/-- `Item.Taken cs item rest`: an item is at the front of the text `cs` and `rest` behind it. A name goes
on as far as it can; of a pair this says where its value is read. -/
inductive Item.Taken : List Char → Item → List Char → Prop where
  | close (rest : List Char) : Taken ('\x7d' :: rest) .close rest
  | className {name rest : List Char} (ne_nil : name ≠ []) (word : ∀ c ∈ name, isWordChar c = true)
      (ends : EndsWord rest) : Taken ('.' :: (name ++ rest)) (.class name) rest
  | identifier {name rest : List Char} (ne_nil : name ≠ []) (word : ∀ c ∈ name, isWordChar c = true)
      (ends : EndsWord rest) : Taken ('#' :: (name ++ rest)) (.id name) rest
  | pair {key value behind rest : List Char} (is_key : KeyChars key)
      (read : readValue? behind = some (value, rest)) :
      Taken (key ++ '=' :: behind) (.pair key value) rest

/-- What is read is the end of a group, a name behind its mark, or a pair. -/
theorem Item.Taken.of_readItem? {item : Item} {cs rest : List Char}
    (h : readItem? cs = some (item, rest)) : Item.Taken cs item rest := by
  unfold readItem? at h
  split at h
  · cases h
  · cases h
    exact .close rest
  · rename_i cs'
    split at h
    · cases h
    · rename_i hne
      cases h
      have htaken := Taken.className (by simpa using hne)
        (fun c hc => isWordChar_of_mem_wordOf hc) (endsWord_drop_wordOf cs')
      rwa [wordOf_append_drop] at htaken
  · rename_i cs'
    split at h
    · cases h
    · rename_i hne
      cases h
      have htaken := Taken.identifier (by simpa using hne)
        (fun c hc => isWordChar_of_mem_wordOf hc) (endsWord_drop_wordOf cs')
      rwa [wordOf_append_drop] at htaken
  · rename_i hnil hclose hdot hsign
    simp only at h
    split at h
    · cases h
    · rename_i equals behind hdrop
      split at h
      · cases h
      · rename_i hkey
        obtain ⟨⟨value, rest'⟩, hvalue, hitem⟩ := Option.map_eq_some_iff.mp h
        cases hitem
        simp only [Bool.or_eq_true, Bool.not_eq_true', not_or, Bool.not_eq_true,
          Bool.not_eq_false, List.all_eq_true, List.isEmpty_eq_false_iff] at hkey
        have htaken := Taken.pair (keyChars_takeWhile hkey.1 hkey.2 hdot hsign) hvalue
        rwa [← eq_append_equals hdrop] at htaken

/-- Every item that is read has a word for a name, and a key for a key. -/
theorem Item.Wellformed.of_readItem? {item : Item} {cs rest : List Char}
    (h : readItem? cs = some (item, rest)) : item.Wellformed := by
  cases Item.Taken.of_readItem? h with
  | close => trivial
  | className hne hword => exact ⟨hne, hword⟩
  | identifier hne hword => exact ⟨hne, hword⟩
  | pair hkey => exact hkey

theorem Wellformed.addItem {attr : Attr} {item : Item} (hattr : attr.Wellformed)
    (hitem : item.Wellformed) : (attr.addItem item).Wellformed := by
  cases item with
  | close => exact hattr
  | «class» name =>
    refine ⟨hattr.id, fun other hother => ?_, hattr.keys⟩
    rcases List.mem_append.mp hother with hother | hother
    · exact hattr.classes other hother
    · rw [List.mem_singleton.mp hother]
      exact ⟨ofList_ne_empty hitem.1, isWord_ofList hitem.2⟩
  | id name => exact ⟨isWord_ofList hitem.2, hattr.classes, hattr.keys⟩
  | pair key value =>
    refine ⟨hattr.id, hattr.classes, fun other hother => ?_⟩
    rcases List.mem_append.mp hother with hother | hother
    · exact hattr.keys other hother
    · rw [List.mem_singleton.mp hother]
      exact isKey_ofList hitem

/-- What every item keeps, a group keeps. -/
theorem readItems_preserves {P : Attr → Prop}
    (hstep : ∀ attr item, P attr → item.Wellformed → P (attr.addItem item))
    {attr result : Attr} {cs rest : List Char} (hattr : P attr)
    (h : readItems attr cs = some (result, rest)) : P result := by
  fun_induction readItems attr cs with
  | case1 attr cs hread => cases h
  | case2 attr cs rest' hread =>
    cases h
    exact hattr
  | case3 attr cs item rest' hclose hread ih =>
    exact ih (hstep attr item hattr (.of_readItem? hread)) h

/-- Nothing comes out of a group that could not be written, values apart. -/
theorem Wellformed.of_readItems {result : Attr} {cs rest : List Char}
    (h : readItems empty cs = some (result, rest)) : result.Wellformed := by
  refine readItems_preserves (fun attr item hattr hitem => hattr.addItem hitem) ?_ h
  exact ⟨fun c hc => (by cases hc), fun name hname => (by cases hname), fun pair hpair => (by cases hpair)⟩

/-- What is read stays as it is. -/
theorem pairs_prefix_of_readItems {attr result : Attr} {cs rest : List Char}
    (h : readItems attr cs = some (result, rest)) : attr.pairs <+: result.pairs := by
  refine readItems_preserves (P := fun later => attr.pairs <+: later.pairs) ?_ (List.prefix_refl _) h
  intro later item hlater _
  cases item with
  | pair key value => exact hlater.trans (List.prefix_append _ _)
  | _ => exact hlater

-- ---------------------------------------------------------------------------
-- Which attributes come back
-- ---------------------------------------------------------------------------

theorem IsWord.isWordChar {s : String} (h : IsWord s) : ∀ c ∈ s.toList, isWordChar c = true :=
  fun c hc => isWordChar_eq_true.mpr (h c hc)

theorem IsKey.keyChars {s : String} (h : IsKey s) : KeyChars s.toList where
  word := h.word.isWordChar
  ne_nil := by simpa using h.ne_empty
  no_equals := h.no_equals
  no_dot := h.no_dot
  no_sign := h.no_sign

theorem Wellformed.readable_nameItems {attr : Attr} (h : attr.Wellformed) :
    ∀ item ∈ attr.nameItems, item.Readable := by
  intro item hitem
  rcases List.mem_append.mp hitem with hitem | hitem
  · split at hitem
    · cases hitem
    · rename_i hne
      rw [List.mem_singleton.mp hitem]
      exact ⟨by simpa using hne, h.id.isWordChar⟩
  · obtain ⟨name, hname, rfl⟩ := List.mem_map.mp hitem
    obtain ⟨hne, hword⟩ := h.classes name hname
    exact ⟨by simpa using hne, hword.isWordChar⟩

/-- Pairs that come back as they are have no quotes in their values. -/
theorem no_quote_of_readItems {pairs : List (String × String)} (hkeys : ∀ pair ∈ pairs, IsKey pair.1)
    {attr result : Attr} {rest : List Char}
    (h : readItems attr (writtenItems (pairs.map pairItem)) = some (result, rest))
    (hpairs : result.pairs = attr.pairs ++ pairs) : ∀ pair ∈ pairs, '"' ∉ pair.2.toList := by
  induction pairs generalizing attr with
  | nil => intro pair hpair; cases hpair
  | cons pair pairs ih =>
    obtain ⟨key, value⟩ := pair
    obtain ⟨hkey, hkeysRest⟩ := List.forall_mem_cons.mp hkeys
    -- The first value is read up to its first quote, and what is read stays.
    obtain ⟨after, hitem, hafter⟩ :=
      readItem?_pair hkey.keyChars value.toList (pairs.map pairItem)
    rw [← dropWhile_pair hkey.keyChars] at hitem
    rw [List.map_cons, pairItem, readItems_of_readItem? hitem Item.noConfusion] at h
    have hprefix := pairs_prefix_of_readItems h
    rw [hpairs] at hprefix
    have hfirst : String.ofList (value.toList.takeWhile (· ≠ '"')) = value := by
      have hpair := (List.prefix_append_right_inj attr.pairs).mp hprefix
      simp only [List.cons_prefix_cons, Prod.mk.injEq] at hpair
      exact hpair.1.2
    have hquote : '"' ∉ value.toList := by
      rw [← hfirst, String.toList_ofList]
      intro hmem
      simpa using List.mem_takeWhile_imp hmem
    rw [hafter hquote] at h
    refine List.forall_mem_cons.mpr ⟨hquote, ih hkeysRest h ?_⟩
    rw [hpairs, addItem, hfirst, String.ofList_toList]
    simp

/-- The items of readable attributes are read back. -/
theorem Readable.readItems {attr : Attr} (h : attr.Readable) :
    readItems empty (writtenItems attr.itemList) = some (attr, []) := by
  have hitems : ∀ item ∈ attr.itemList, item.Readable := by
    intro item hitem
    rw [itemList] at hitem
    rcases List.mem_append.mp hitem with hitem | hitem
    · exact h.readable_nameItems item hitem
    · obtain ⟨pair, hpair, rfl⟩ := List.mem_map.mp hitem
      exact ⟨(h.keys pair hpair).keyChars, h.values pair hpair⟩
  rw [readItems_written hitems, foldl_itemList]

/-- The text of an attribute is read as the attribute exactly if this is readable. -/
theorem parse?_show_self_iff (attr : Attr) : parse? attr.show = some attr ↔ attr.Readable := by
  rw [parse?_show_eq_some]
  constructor
  · intro h
    have hattr := Wellformed.of_readItems h
    rw [itemList, readItems_written_append hattr.readable_nameItems, foldl_nameItems] at h
    exact ⟨hattr, no_quote_of_readItems hattr.keys h rfl⟩
  · intro h
    exact h.readItems

/-- An attribute is what its text says exactly if it is readable. The text of any other is no group, or
says something else. -/
theorem parse?_show (attr : Attr) :
    (parse? attr.show = some attr ↔ attr.Readable) ∧
      (¬ attr.Readable →
        parse? attr.show = none ∨ ∃ other, other ≠ attr ∧ parse? attr.show = some other) := by
  have hiff := parse?_show_self_iff attr
  refine ⟨hiff, fun hreadable => ?_⟩
  cases hparse : parse? attr.show with
  | none => exact .inl rfl
  | some other =>
    refine .inr ⟨other, ?_, rfl⟩
    rintro rfl
    exact hreadable (hiff.mp hparse)

end Literate.Attr
