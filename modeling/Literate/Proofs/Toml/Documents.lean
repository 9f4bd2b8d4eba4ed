import Literate.Proofs.Toml.Scalars

/-!
# Lines of a document

A document is a list of lines: headers, and entries that may go over several lines because of a string in
their value. What is written around the strings is on the line where it begins, and no line begins or ends
with a line of a string that is not written with its quotes (`Anchored`). So of words of plus signs and blanks
from one line end to another, a document has those that its strings are written with, wherever in a table or
an array they are.

A value is in the body of a section or, if it has a header, in the sections of its own
(`exists_plainLines_iff`, `Value.exists_sections_iff`), and every section has a header and the lines of some
table under it (`Section.Written`).

Main results:

* `infix_printDocument_iff`: where a word of a document is from.
* `exists_pluses_iff`: which lines of plus signs a document has.
* `return_notMem_printDocument`, `exists_mark_printDocument`: a document has no carriage return, and its first
  character is neither a plus sign nor a blank.
-/

namespace Literate.Toml

open Text (splitFeeds OneLine isMark isPluses LineWord Anchored)
open Markdown (isLineEnd)

variable {w : List Char}

-- ---------------------------------------------------------------------------
-- Values in values
-- ---------------------------------------------------------------------------

/-- Induction over a value with all that it holds, at once for the items of an array or the entries of a
table. -/
@[elab_as_elim]
theorem Value.nested {motive : Value → Prop} (scalar : ∀ v : Value, (∀ items, v ≠ .array items) →
      (∀ entries, v ≠ .table entries) → motive v)
    (array : ∀ items, (∀ item ∈ items, motive item) → motive (.array items))
    (table : ∀ entries, (∀ entry ∈ entries, motive entry.2) → motive (.table entries)) :
    ∀ v, motive v
  | .string _ | .integer _ | .float _ | .boolean _ | .datetime _ => scalar _ nofun nofun
  | .array items => array items fun item _ => Value.nested scalar array table item
  | .table entries => table entries fun entry hentry =>
    have : sizeOf entry.2 < sizeOf entries :=
      Nat.lt_of_lt_of_le (by cases entry; simp) (Nat.le_of_lt (List.sizeOf_lt_of_mem hentry))
    Value.nested scalar array table entry.2

mutual

/-- The strings in a value, at any depth. -/
def Value.texts : Value → List String
  | .string s => [s]
  | .array items => textsOfItems items
  | .table entries => textsOfEntries entries
  | .integer _ | .float _ | .boolean _ | .datetime _ => []

def textsOfItems : List Value → List String
  | [] => []
  | item :: items => item.texts ++ textsOfItems items

def textsOfEntries : List (String × Value) → List String
  | [] => []
  | (_, value) :: entries => value.texts ++ textsOfEntries entries

end

theorem mem_textsOfItems {text : String} {items : List Value} :
    text ∈ textsOfItems items ↔ ∃ item ∈ items, text ∈ item.texts := by
  induction items with
  | nil => simp [textsOfItems]
  | cons item items ih => rw [textsOfItems, List.mem_append, ih, List.exists_mem_cons_iff]

theorem mem_textsOfEntries {text : String} {entries : List (String × Value)} :
    text ∈ textsOfEntries entries ↔ ∃ entry ∈ entries, text ∈ entry.2.texts := by
  induction entries with
  | nil => simp [textsOfEntries]
  | cons entry entries ih => rw [textsOfEntries, List.mem_append, ih, List.exists_mem_cons_iff]

/-- Whether a word is in one of the strings of a value, as it is written. -/
def Value.Has (w : List Char) (v : Value) : Prop :=
  ∃ text ∈ v.texts, w <:+: (printString text).toList

theorem Value.has_array {items : List Value} :
    (Value.array items).Has w ↔ ∃ item ∈ items, item.Has w := by
  simp only [Value.Has, Value.texts, mem_textsOfItems]
  tauto

theorem Value.has_table {entries : List (String × Value)} :
    (Value.table entries).Has w ↔ ∃ entry ∈ entries, entry.2.Has w := by
  simp only [Value.Has, Value.texts, mem_textsOfEntries]
  tauto

-- ---------------------------------------------------------------------------
-- Values in brackets
-- ---------------------------------------------------------------------------

theorem printItems_eq_map (items : List Value) : printItems items = items.map Value.print := by
  induction items with
  | nil => rfl
  | cons item items ih => rw [printItems, ih, List.map_cons]

/-- The line that an entry is written on, or the lines. -/
def printEntry (entry : String × Value) : String :=
  printKey entry.1 ++ " = " ++ entry.2.print

theorem printEntries_eq_map (entries : List (String × Value)) :
    printEntries entries = entries.map printEntry := by
  induction entries with
  | nil => rfl
  | cons entry entries ih => rw [printEntries, ih, List.map_cons, printEntry]

theorem oneLine_printKey (key : String) : OneLine (printKey key).toList := by
  obtain ⟨c, rest, hkey, -, hline⟩ := exists_printKey key
  rwa [hkey]

theorem infix_printEntry_iff (hw : LineWord w) (entry : String × Value) :
    w <:+: (printEntry entry).toList ↔ w <:+: entry.2.print.toList := by
  have hfront : OneLine ((printKey entry.1).toList ++ " = ".toList) := by
    simp [oneLine_printKey, isLineEnd]
  rw [printEntry, String.toList_append, String.toList_append, hw.infix_append_left_iff hfront]

theorem oneLine_print_scalar {v : Value} (hstring : ∀ s, v ≠ .string s) (harray : ∀ items, v ≠ .array items)
    (htable : ∀ entries, v ≠ .table entries) : OneLine v.print.toList := by
  cases v with
  | string s => exact absurd rfl (hstring s)
  | integer n =>
    rw [Value.print]
    exact oneLine_toString n
  | float x =>
    rw [Value.print]
    exact oneLine_printFloat x
  | boolean b =>
    rw [Value.print]
    cases b <;> simp [isLineEnd]
  | datetime d =>
    have hname : OneLine "\x7b \"$__toml_private_datetime\" = ".toList := by decide
    have hdate := oneLine_printString (oneLine_show d).notMem
    have hback : OneLine " \x7d".toList := by decide
    unfold Value.print printDatetime
    rw [String.toList_append, String.toList_append]
    exact (hname.append hdate).append hback
  | array items => exact absurd rfl (harray items)
  | table entries => exact absurd rfl (htable entries)

/-- Texts with commas between them, and brackets around, have the words of these texts. -/
theorem infix_bracketed_iff (hw : LineWord w) {front back : String} (hfront : OneLine front.toList)
    (hback : OneLine back.toList) (parts : List String) :
    w <:+: (front ++ ", ".intercalate parts ++ back).toList ↔ ∃ part ∈ parts, w <:+: part.toList := by
  have hcomma : ", ".toList = ',' :: [' '] := rfl
  rw [String.toList_append, String.toList_append, hw.infix_append_right_iff hback,
    hw.infix_append_left_iff hfront, String.toList_intercalate, hcomma,
    hw.infix_intercalate_iff rfl (OneLine.cons_iff.mpr ⟨rfl, .nil⟩)]
  simp only [List.mem_map, exists_exists_and_eq_and]

/-- **Values.** What is written around the strings of a value makes no word. -/
theorem Value.infix_print_iff (hw : LineWord w) (v : Value) : w <:+: v.print.toList ↔ v.Has w := by
  induction v using Value.nested with
  | scalar v harray htable =>
    by_cases hstring : ∃ s, v = .string s
    · obtain ⟨s, rfl⟩ := hstring
      simp [Value.print, Value.Has, Value.texts]
    · push Not at hstring
      -- Any other scalar is written on one line, and in a word there is a line end.
      have htexts : v.texts = [] := by
        cases v with
        | string s => exact absurd rfl (hstring s)
        | array items => exact absurd rfl (harray items)
        | table entries => exact absurd rfl (htable entries)
        | _ => rfl
      have hnone := hw.not_infix_oneLine (oneLine_print_scalar hstring harray htable)
      simp [hnone, Value.Has, htexts]
  | array items ih =>
    rw [Value.print, infix_bracketed_iff hw (by simp [isLineEnd]) (by simp [isLineEnd]), printItems_eq_map,
      Value.has_array]
    simp only [List.mem_map, exists_exists_and_eq_and]
    exact exists_congr fun item => and_congr_right fun hitem => ih item hitem
  | table entries ih =>
    rw [Value.has_table]
    cases entries with
    | nil => simp [Value.print, hw.not_infix_oneLine, isLineEnd]
    | cons entry entries =>
      rw [Value.print, infix_bracketed_iff hw (by simp [isLineEnd]) (by simp [isLineEnd]),
        printEntries_eq_map]
      · simp only [List.mem_map, exists_exists_and_eq_and]
        refine exists_congr fun entry => and_congr_right fun hentry => ?_
        rw [infix_printEntry_iff hw, ih entry hentry]
      · simp

/-- What ends a value is on the line where the value begins, or breaks a word. -/
theorem Value.ends_print (v : Value) : OneLine v.print.toList ∨
    ∃ init m, v.print.toList = init ++ [m] ∧ isMark m = true := by
  cases v with
  | string s => exact .inr (exists_quote_printString s)
  | array items => exact .inr ⟨_, ']', by rw [Value.print, String.toList_append]; rfl, rfl⟩
  | table entries =>
    cases entries with
    | nil => exact .inl (by decide)
    | cons entry entries =>
      refine .inr ⟨("\x7b " ++ ", ".intercalate (printEntries (entry :: entries)) ++ " ").toList, '\x7d', ?_, rfl⟩
      rw [Value.print]
      · simp
      · simp
  | _ => exact .inl (oneLine_print_scalar nofun nofun nofun)

theorem anchored_printEntry (entry : String × Value) : Anchored (printEntry entry).toList := by
  have hkey := oneLine_printKey entry.1
  have htext : (printEntry entry).toList =
      ((printKey entry.1).toList ++ [' ']) ++ '=' :: (' ' :: entry.2.print.toList) := by
    simp [printEntry]
  have hfront : OneLine ((printKey entry.1).toList ++ [' ']) := by simp [hkey, isLineEnd]
  rw [htext]
  refine ⟨⟨_, _, _, rfl, rfl, hfront⟩, ?_⟩
  rcases entry.2.ends_print with hline | ⟨init, m, hlast, hm⟩
  · exact ⟨_, _, _, rfl, rfl, by simp [hline, isLineEnd]⟩
  · exact ⟨((printKey entry.1).toList ++ [' ']) ++ '=' :: ' ' :: init, m, [], by simp [hlast], hm, .nil⟩

-- ---------------------------------------------------------------------------
-- Sections
-- ---------------------------------------------------------------------------

theorem plainLines_eq_map (entries : List (String × Value)) :
    plainLines entries = (entries.filter fun entry => !entry.2.hasHeader).map printEntry :=
  printEntries_eq_map _

/-- The values without a header are written in the body of a table. -/
theorem exists_plainLines_iff (hw : LineWord w) (entries : List (String × Value)) :
    (∃ line ∈ plainLines entries, w <:+: line.toList) ↔
      ∃ entry ∈ entries, entry.2.hasHeader = false ∧ entry.2.Has w := by
  rw [plainLines_eq_map]
  simp only [List.mem_map, exists_exists_and_eq_and, infix_printEntry_iff hw, Value.infix_print_iff hw]
  simp only [List.mem_filter, Bool.not_eq_true', and_assoc]

theorem entrySections_eq_flatMap (path : List String) (entries : List (String × Value)) :
    entrySections path entries = entries.flatMap fun entry => entry.2.sections (path ++ [entry.1]) := by
  induction entries with
  | nil => rfl
  | cons entry entries ih => rw [entrySections, ih, List.flatMap_cons]

/-- The sections of an array are those of its tables: a header with the lines of the table, and what is in
the table. -/
theorem mem_itemSections {path : List String} {sec : Section} {items : List Value} :
    sec ∈ itemSections path items ↔ ∃ entries, .table entries ∈ items ∧
      (sec = ⟨some s!"[[{printPath path}]]", plainLines entries⟩ ∨ sec ∈ entrySections path entries) := by
  induction items with
  | nil => simp [itemSections]
  | cons item items ih =>
    cases item with
    | table entries =>
      rw [itemSections, List.mem_append, List.mem_cons, ih]
      simp only [List.mem_cons, Value.table.injEq]
      constructor
      · rintro (hsec | ⟨others, hothers, hsec⟩)
        · exact ⟨entries, .inl rfl, hsec⟩
        · exact ⟨others, .inr hothers, hsec⟩
      · rintro ⟨others, rfl | hothers, hsec⟩
        · exact .inl hsec
        · exact .inr ⟨others, hothers, hsec⟩
    | _ =>
      rw [itemSections, ih]
      · simp
      · nofun

/-- Whether a word is in the body of a section. -/
def Section.Has (w : List Char) (sec : Section) : Prop :=
  ∃ line ∈ sec.body, w <:+: line.toList

theorem exists_sections_table_iff (path : List String) (entries : List (String × Value)) :
    (∃ sec ∈ (Value.table entries).sections path, sec.Has w) ↔
      (∃ line ∈ plainLines entries, w <:+: line.toList) ∨ ∃ sec ∈ entrySections path entries, sec.Has w := by
  rw [Value.sections]
  simp only [List.mem_append, or_and_right, exists_or]
  refine or_congr_left ?_
  split
  · rename_i hempty
    rw [Bool.and_eq_true, List.isEmpty_iff] at hempty
    simp [hempty.1]
  · simp [Section.Has]

theorem exists_entries_of_hasHeader {items : List Value} {item : Value}
    (h : (Value.array items).hasHeader = true) (hitem : item ∈ items) : ∃ entries, item = .table entries := by
  rw [Value.hasHeader, Bool.and_eq_true, List.all_eq_true] at h
  have htable := h.2 item hitem
  cases item with
  | table entries => exact ⟨entries, rfl⟩
  | _ => cases htable

/-- Where all items are tables, each has the sections it has by itself. -/
theorem exists_itemSections_iff {items : List Value} (h : (Value.array items).hasHeader = true)
    (path : List String) :
    (∃ sec ∈ itemSections path items, sec.Has w) ↔ ∃ item ∈ items, ∃ sec ∈ item.sections path, sec.Has w := by
  constructor
  · rintro ⟨sec, hsec, hhas⟩
    obtain ⟨entries, hentries, hsec⟩ := mem_itemSections.mp hsec
    refine ⟨_, hentries, (exists_sections_table_iff path entries).mpr ?_⟩
    rcases hsec with rfl | hsec
    · exact .inl hhas
    · exact .inr ⟨sec, hsec, hhas⟩
  · rintro ⟨item, hitem, hsections⟩
    obtain ⟨entries, rfl⟩ := exists_entries_of_hasHeader h hitem
    rcases (exists_sections_table_iff path entries).mp hsections with hplain | ⟨sec, hsec, hhas⟩
    · exact ⟨_, mem_itemSections.mpr ⟨entries, hitem, .inl rfl⟩, hplain⟩
    · exact ⟨sec, mem_itemSections.mpr ⟨entries, hitem, .inr hsec⟩, hhas⟩

theorem exists_entrySections_iff (path : List String) (entries : List (String × Value)) :
    (∃ sec ∈ entrySections path entries, sec.Has w) ↔
      ∃ entry ∈ entries, ∃ sec ∈ entry.2.sections (path ++ [entry.1]), sec.Has w := by
  simp only [entrySections_eq_flatMap, List.mem_flatMap]
  constructor
  · rintro ⟨sec, ⟨entry, hentry, hsec⟩, hhas⟩
    exact ⟨entry, hentry, sec, hsec, hhas⟩
  · rintro ⟨entry, hentry, sec, hsec, hhas⟩
    exact ⟨sec, ⟨entry, hentry, hsec⟩, hhas⟩

/-- **Sections.** A value that has a header is written in the sections of its own, and any other has none. -/
theorem Value.exists_sections_iff (hw : LineWord w) (v : Value) : ∀ path : List String,
    (∃ sec ∈ v.sections path, sec.Has w) ↔ v.hasHeader = true ∧ v.Has w := by
  induction v using Value.nested with
  | scalar v harray htable =>
    intro path
    cases v with
    | array items => exact absurd rfl (harray items)
    | table entries => exact absurd rfl (htable entries)
    | _ => simp [Value.sections, Value.hasHeader]
  | array items ih =>
    intro path
    rw [Value.sections]
    split
    · rename_i hheader
      rw [exists_itemSections_iff hheader, and_iff_right hheader, Value.has_array]
      refine exists_congr fun item => and_congr_right fun hitem => ?_
      obtain ⟨entries, rfl⟩ := exists_entries_of_hasHeader hheader hitem
      exact (ih _ hitem path).trans (and_iff_right rfl)
    · rename_i hheader
      simp [hheader]
  | table entries ih =>
    intro path
    have hentries : (∃ sec ∈ entrySections path entries, sec.Has w) ↔
        ∃ entry ∈ entries, entry.2.hasHeader = true ∧ entry.2.Has w := by
      rw [exists_entrySections_iff]
      exact exists_congr fun entry => and_congr_right fun hentry => ih entry hentry _
    have hheader : (Value.table entries).hasHeader = true := rfl
    rw [exists_sections_table_iff, exists_plainLines_iff hw, hentries, and_iff_right hheader,
      Value.has_table, ← exists_or]
    -- An entry is written in the body of the table or in sections of its own.
    refine exists_congr fun entry => ?_
    cases entry.2.hasHeader <;> simp

/-- A section as it is written: a header in brackets, and the lines of a table. -/
structure Section.Written (sec : Section) : Prop where
  header : ∃ inside, sec.header = some ("[" ++ inside ++ "]") ∧ OneLine inside.toList
  body : ∃ entries, sec.body = plainLines entries

theorem oneLine_printPath (path : List String) : OneLine (printPath path).toList := by
  intro c hc
  by_contra hend
  have hdot : c ∉ ".".toList := by
    rintro hmem
    rw [List.mem_singleton.mp hmem] at hend
    exact hend rfl
  rw [printPath, String.toList_intercalate, Text.mem_intercalate_iff hdot] at hc
  simp only [List.mem_map, exists_exists_and_eq_and] at hc
  obtain ⟨key, -, hmem⟩ := hc
  exact hend (oneLine_printKey key c hmem)

theorem Section.written_table (path : List String) (entries : List (String × Value)) :
    (Section.mk (some s!"[{printPath path}]") (plainLines entries)).Written :=
  ⟨⟨printPath path, rfl, oneLine_printPath path⟩, entries, rfl⟩

theorem Section.written_item (path : List String) (entries : List (String × Value)) :
    (Section.mk (some s!"[[{printPath path}]]") (plainLines entries)).Written := by
  refine ⟨⟨"[" ++ printPath path ++ "]", ?_, ?_⟩, entries, rfl⟩
  · rw [Option.some.injEq, ← String.toList_inj]
    simp [toString]
  · simp [oneLine_printPath, isLineEnd]

theorem Value.written_sections (v : Value) : ∀ path : List String, ∀ sec ∈ v.sections path, sec.Written := by
  induction v using Value.nested with
  | scalar v harray htable =>
    intro path sec hsec
    cases v with
    | array items => exact absurd rfl (harray items)
    | table entries => exact absurd rfl (htable entries)
    | _ => cases hsec
  | array items ih =>
    intro path sec hsec
    rw [Value.sections] at hsec
    split at hsec
    · obtain ⟨entries, hentries, rfl | hsec⟩ := mem_itemSections.mp hsec
      · exact Section.written_item path entries
      · exact ih _ hentries path sec (by
          rw [Value.sections]
          exact List.mem_append_right _ hsec)
    · cases hsec
  | table entries ih =>
    intro path sec hsec
    rw [Value.sections, List.mem_append, entrySections_eq_flatMap, List.mem_flatMap] at hsec
    rcases hsec with hsec | ⟨entry, hentry, hsec⟩
    · split at hsec
      · cases hsec
      · rw [List.mem_singleton.mp hsec]
        exact Section.written_table path entries
    · exact ih entry hentry _ sec hsec

/-- A value with a header is not left out. -/
theorem Value.sections_ne_nil (v : Value) : ∀ path : List String, v.hasHeader = true → v.sections path ≠ [] := by
  induction v using Value.nested with
  | scalar v harray htable =>
    intro path hheader
    cases v with
    | array items => exact absurd rfl (harray items)
    | table entries => exact absurd rfl (htable entries)
    | _ => cases hheader
  | array items ih =>
    intro path hheader
    rw [Value.sections, if_pos hheader]
    have hitems : items ≠ [] := by
      rintro rfl
      cases hheader
    obtain ⟨item, rest, rfl⟩ := List.exists_cons_of_ne_nil hitems
    obtain ⟨entries, rfl⟩ := exists_entries_of_hasHeader hheader List.mem_cons_self
    simp [itemSections]
  | table entries ih =>
    intro path _
    rw [Value.sections]
    split
    · rename_i hempty
      rw [Bool.and_eq_true, Bool.not_eq_true', List.isEmpty_iff, List.isEmpty_eq_false_iff] at hempty
      -- With no line under it the header is left out, but then there is an entry with a header of its own.
      obtain ⟨entry, rest, rfl⟩ := List.exists_cons_of_ne_nil hempty.2
      have hplain := hempty.1
      rw [plainLines_eq_map, List.map_eq_nil_iff, List.filter_eq_nil_iff] at hplain
      have hheader : entry.2.hasHeader = true := by simpa using hplain entry List.mem_cons_self
      have hsections := ih entry List.mem_cons_self (path ++ [entry.1]) hheader
      rw [entrySections_eq_flatMap]
      simp [hsections]
    · simp

-- ---------------------------------------------------------------------------
-- Documents
-- ---------------------------------------------------------------------------

theorem mem_sectionLines {first : Bool} {sections : List Section} {line : String}
    (h : line ∈ sectionLines first sections) :
    line = "" ∨ ∃ sec ∈ sections, sec.header = some line ∨ line ∈ sec.body := by
  fun_induction sectionLines first sections with
  | case1 => cases h
  | case2 first body rest ih =>
    rcases List.mem_append.mp h with h | h
    · exact .inr ⟨_, List.mem_cons_self, .inr h⟩
    · exact (ih h).imp_right fun ⟨sec, hsec, hline⟩ => ⟨sec, List.mem_cons_of_mem _ hsec, hline⟩
  | case3 first header body rest ih =>
    simp only [List.mem_append, List.mem_cons] at h
    rcases h with (h | rfl | h) | h
    · cases first with
      | true => cases h
      | false => exact .inl (List.mem_singleton.mp h)
    · exact .inr ⟨_, List.mem_cons_self, .inl rfl⟩
    · exact .inr ⟨_, List.mem_cons_self, .inr h⟩
    · exact (ih h).imp_right fun ⟨sec, hsec, hline⟩ => ⟨sec, List.mem_cons_of_mem _ hsec, hline⟩

theorem mem_sectionLines_of_mem_body {first : Bool} {sections : List Section} {sec : Section} {line : String}
    (hsec : sec ∈ sections) (h : line ∈ sec.body) : line ∈ sectionLines first sections := by
  fun_induction sectionLines first sections with
  | case1 => cases hsec
  | case2 first body rest ih =>
    rcases List.mem_cons.mp hsec with rfl | hsec
    · exact List.mem_append_left _ h
    · exact List.mem_append_right _ (ih hsec)
  | case3 first header body rest ih =>
    rcases List.mem_cons.mp hsec with rfl | hsec
    · simp [h]
    · exact List.mem_append_right _ (ih hsec)

theorem toList_printDocument (entries : List (String × Value)) : (printDocument entries).toList =
    ((documentLines entries).map String.toList).flatMap (· ++ ['\n']) := by
  simp [printDocument, List.flatMap_map]

theorem isWhole_printDocument (entries : List (String × Value)) :
    Text.IsWhole (printDocument entries).toList := by
  rw [toList_printDocument]
  exact Text.isWhole_flatMap_feed _

theorem written_entrySections (path : List String) (entries : List (String × Value)) :
    ∀ sec ∈ entrySections path entries, sec.Written := by
  intro sec hsec
  refine (Value.table entries).written_sections path sec ?_
  rw [Value.sections]
  exact List.mem_append_right _ hsec

theorem Section.Written.anchored {sec : Section} (h : sec.Written) {line : String}
    (hline : sec.header = some line ∨ line ∈ sec.body) : Anchored line.toList := by
  rcases hline with hline | hline
  · obtain ⟨inside, hheader, honeLine⟩ := h.header
    obtain rfl : "[" ++ inside ++ "]" = line := Option.some.inj (hheader.symm.trans hline)
    have hbrackets : OneLine ("[" ++ inside ++ "]").toList := by simp [honeLine, isLineEnd]
    exact hbrackets.anchored (m := '[') (by simp) rfl
  · obtain ⟨entries, hbody⟩ := h.body
    rw [hbody, plainLines_eq_map] at hline
    obtain ⟨entry, -, rfl⟩ := List.mem_map.mp hline
    exact anchored_printEntry entry

theorem anchored_documentLines {entries : List (String × Value)} {line : String}
    (h : line ∈ documentLines entries) : line = "" ∨ Anchored line.toList := by
  refine (mem_sectionLines h).imp_right ?_
  rintro ⟨sec, hsec, hline⟩
  rcases List.mem_cons.mp hsec with rfl | hsec
  · rcases hline with hnone | hline
    · cases hnone
    · exact (Section.written_table [] entries).anchored (.inr hline)
  · exact (written_entrySections [] entries sec hsec).anchored hline

theorem Section.Written.has {sec : Section} (h : sec.Written) (hw : LineWord w) {line : String}
    (hline : sec.header = some line ∨ line ∈ sec.body) (hword : w <:+: line.toList) : sec.Has w := by
  rcases hline with hline | hline
  · obtain ⟨inside, hheader, honeLine⟩ := h.header
    obtain rfl : "[" ++ inside ++ "]" = line := Option.some.inj (hheader.symm.trans hline)
    exact absurd hword (hw.not_infix_oneLine (by simp [honeLine, isLineEnd]))
  · exact ⟨line, hline, hword⟩

/-- **Documents.** The words of a document are those of the strings in it. -/
theorem infix_printDocument_iff (hw : LineWord w) (entries : List (String × Value)) :
    w <:+: '\n' :: (printDocument entries).toList ↔
      ∃ text ∈ textsOfEntries entries, w <:+: (printString text).toList := by
  have hlines : ∀ line ∈ (documentLines entries).map String.toList, line = [] ∨ Anchored line := by
    simp only [List.forall_mem_map]
    intro line hline
    exact (anchored_documentLines hline).imp_left (by rintro rfl; rfl)
  have hfeeds := hw.infix_feeds_iff hlines 1
  have hheader : (Value.table entries).hasHeader = true := rfl
  have hsections := (Value.table entries).exists_sections_iff hw []
  rw [exists_sections_table_iff, and_iff_right hheader] at hsections
  rw [toList_printDocument]
  refine hfeeds.trans (Iff.trans ?_ hsections)
  simp only [List.mem_map, exists_exists_and_eq_and]
  constructor
  · rintro ⟨line, hline, hword⟩
    rcases mem_sectionLines hline with rfl | ⟨sec, hsec, hline⟩
    · exact absurd hword (hw.not_infix_oneLine .nil)
    · rcases List.mem_cons.mp hsec with rfl | hsec
      · exact .inl ((Section.written_table [] entries).has hw (hline.imp_left nofun) hword)
      · exact .inr ⟨sec, hsec, (written_entrySections [] entries sec hsec).has hw hline hword⟩
  · rintro (⟨line, hline, hword⟩ | ⟨sec, hsec, line, hline, hword⟩)
    · exact ⟨line, mem_sectionLines_of_mem_body List.mem_cons_self hline, hword⟩
    · exact ⟨line, mem_sectionLines_of_mem_body (List.mem_cons_of_mem _ hsec) hline, hword⟩

theorem return_notMem_printDocument (entries : List (String × Value)) :
    '\r' ∉ (printDocument entries).toList := by
  intro hmem
  have hword : ['\r'] <:+: '\n' :: (printDocument entries).toList :=
    (List.singleton_infix_iff ..).mpr (List.mem_cons_of_mem _ hmem)
  obtain ⟨text, -, hreturn⟩ := (infix_printDocument_iff Text.lineWord_return entries).mp hword
  exact return_notMem_printString text ((List.singleton_infix_iff ..).mp hreturn)

/-- A table that holds anything is written, and from the first column on. -/
theorem exists_mark_printDocument {entries : List (String × Value)} (h : entries ≠ []) :
    ∃ c rest, (printDocument entries).toList = c :: rest ∧ isMark c = true := by
  have hfirst : ∃ line lines c rest, documentLines entries = line :: lines ∧ line.toList = c :: rest ∧
      isMark c = true := by
    rw [documentLines, sectionLines]
    cases hplain : plainLines entries with
    | cons line lines =>
      have hline : line ∈ plainLines entries := hplain ▸ List.mem_cons_self
      rw [plainLines_eq_map] at hline
      obtain ⟨entry, -, rfl⟩ := List.mem_map.mp hline
      obtain ⟨c, rest, hkey, hc, -⟩ := exists_printKey entry.1
      exact ⟨_, _, c, _, rfl, by rw [printEntry, String.toList_append, String.toList_append, hkey]; rfl, hc⟩
    | nil =>
      have hsections := (Value.table entries).sections_ne_nil [] rfl
      rw [Value.sections, hplain, if_pos (by simp [h]), List.nil_append] at hsections
      obtain ⟨⟨header, body⟩, rest, hrest⟩ := List.exists_cons_of_ne_nil hsections
      have hwritten := written_entrySections [] entries _ (hrest ▸ List.mem_cons_self)
      obtain ⟨inside, hheader, -⟩ := hwritten.header
      obtain rfl : header = some ("[" ++ inside ++ "]") := hheader
      rw [hrest]
      exact ⟨_, _, '[', inside.toList ++ [']'], rfl, by simp, rfl⟩
  obtain ⟨line, lines, c, rest, hlines, hline, hc⟩ := hfirst
  exact ⟨c, _, by rw [toList_printDocument, hlines, List.map_cons, List.flatMap_cons, hline]; rfl, hc⟩

/-- **Lines of plus signs.** A document has the lines of plus signs and blanks that its strings are written
with. -/
theorem exists_pluses_iff {blank : Char → Bool} (hblank : ∀ c, blank c = true → Text.isBlank c = true)
    (entries : List (String × Value)) :
    (∃ line ∈ splitFeeds (printDocument entries).toList, isPluses blank line = true) ↔
      ∃ text ∈ textsOfEntries entries, ∃ line ∈ (splitFeeds text.toList).dropLast,
        isPluses blank line = true ∧ ∀ c ∈ line, keeps text.toList c = true := by
  have hinner : ∀ line, isPluses blank line = true →
      (line ∈ splitFeeds (printDocument entries).toList ↔
        line ∈ (splitFeeds (printDocument entries).toList).dropLast) := by
    intro line hline
    refine ⟨fun hmem => ?_, List.mem_of_mem_dropLast⟩
    rcases (isWhole_printDocument entries).mem_splitFeeds_iff.mp hmem with hmem | rfl
    · exact hmem
    · cases hline
  constructor
  · rintro ⟨line, hmem, hline⟩
    have hfeed := Text.notMem_of_mem_splitFeeds hmem
    have hword := (Text.infix_feed_cons_iff hfeed).mpr ((hinner line hline).mp hmem)
    obtain ⟨text, htext, hword⟩ :=
      (infix_printDocument_iff (Text.lineWord_pluses hblank hline) entries).mp hword
    obtain ⟨hkept, hchars⟩ := (infix_printString_iff hblank hline hfeed text).mp hword
    exact ⟨text, htext, line, hkept, hline, hchars⟩
  · rintro ⟨text, htext, line, hkept, hline, hchars⟩
    have hfeed := Text.notMem_of_mem_splitFeeds (List.mem_of_mem_dropLast hkept)
    have hword := (infix_printString_iff hblank hline hfeed text).mpr ⟨hkept, hchars⟩
    have hdocument :=
      (infix_printDocument_iff (Text.lineWord_pluses hblank hline) entries).mpr ⟨text, htext, hword⟩
    exact ⟨line, (hinner line hline).mpr ((Text.infix_feed_cons_iff hfeed).mp hdocument), hline⟩

end Literate.Toml
