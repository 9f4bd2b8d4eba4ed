import Literate.Proofs.Document.TableText
import Literate.Proofs.Markdown.ListMarker

/-!
# The strings of a tree

A block tree is made of strings: texts, addresses, and the names and values of attributes. What the renderer adds
to them has line feeds in it but no carriage return, so that none is in the text of a tree unless it is in one of
its strings.

Main result: `Block.unreturned_render`, by induction over the tree.
-/

namespace Literate

open Text (joinLines)

-- ---------------------------------------------------------------------------
-- Strings
-- ---------------------------------------------------------------------------

def Attr.strings (attr : Attr) : List String :=
  attr.id :: attr.classes ++ attr.pairs.flatMap fun (key, value) => [key, value]

mutual

/-- The strings of an inline and of those in it. -/
def Inline.strings : Inline → List String
  | .text text | .html text | .math _ text => [text]
  | .code attr text => text :: attr.strings
  | .emphasis content | .strong content | .strikethrough content => stringsOf content
  | .link dest title content | .image dest title content => dest :: title :: stringsOf content
  | .span attr content => attr.strings ++ stringsOf content
  | .softBreak | .hardBreak => []

def stringsOf : List Inline → List String
  | [] => []
  | i :: is => i.strings ++ stringsOf is

end

mutual

/-- The strings of a block and of all that is in it. -/
def Block.strings : Block → List String
  | .plain content | .paragraph content | .tableCell content => stringsOf content
  | .heading _ attr content => attr.strings ++ stringsOf content
  | .codeBlock attr text => text :: attr.strings
  | .blockQuote blocks | .listItem blocks | .orderedList _ blocks | .bulletList blocks
  | .tableRow blocks => stringsIn blocks
  | .table _ head rows => head.strings ++ stringsIn rows
  | .div attr content => attr.strings ++ stringsIn content
  | .html text => [text]
  | .rule => []

def stringsIn : List Block → List String
  | [] => []
  | block :: blocks => block.strings ++ stringsIn blocks

end

theorem renderEach_eq_map (blocks : List Block) : renderEach blocks = blocks.map Block.render := by
  induction blocks with
  | nil => rfl
  | cons block blocks ih => rw [renderEach, ih, List.map_cons]

theorem mem_stringsIn {s : String} {blocks : List Block} :
    s ∈ stringsIn blocks ↔ ∃ block ∈ blocks, s ∈ block.strings := by
  induction blocks with
  | nil => simp [stringsIn]
  | cons block blocks ih => rw [stringsIn, List.mem_append, ih, List.exists_mem_cons_iff]

-- ---------------------------------------------------------------------------
-- Texts without carriage returns
-- ---------------------------------------------------------------------------

/-- Whether no carriage return is in any of the texts. -/
def Unreturned (texts : List String) : Prop :=
  ∀ text ∈ texts, '\r' ∉ text.toList

namespace Unreturned

variable {text : String} {texts more : List String}

theorem cons_iff : Unreturned (text :: texts) ↔ '\r' ∉ text.toList ∧ Unreturned texts :=
  List.forall_mem_cons

theorem append_iff : Unreturned (texts ++ more) ↔ Unreturned texts ∧ Unreturned more :=
  List.forall_mem_append

/-- Texts put together have no carriage return if what stands between them has none. -/
theorem intercalate {sep : String} (hsep : '\r' ∉ sep.toList) (h : Unreturned texts) :
    '\r' ∉ (sep.intercalate texts).toList := by
  rw [String.toList_intercalate, Text.mem_intercalate_iff hsep]
  rintro ⟨piece, hpiece, hmem⟩
  obtain ⟨text, htext, rfl⟩ := List.mem_map.mp hpiece
  exact h text htext hmem

theorem joinLines (h : Unreturned texts) : '\r' ∉ (joinLines texts).toList :=
  h.intercalate (by decide)

theorem lines (h : '\r' ∉ text.toList) : Unreturned (Text.lines text) := by
  intro line hline hmem
  obtain ⟨cs, hcs, rfl⟩ := List.mem_map.mp hline
  obtain ⟨piece, hpiece, hbegins⟩ := Text.exists_piece_of_mem_linesOfPieces hcs
  rw [String.toList_ofList] at hmem
  exact h ((Text.infix_of_mem_splitFeeds hpiece).subset (hbegins.subset hmem))

theorem joinBlocks (h : Unreturned texts) : '\r' ∉ (joinBlocks texts).toList :=
  intercalate (by decide) fun text htext => h text (List.mem_filter.mp htext).1

theorem renderRow (h : Unreturned texts) : '\r' ∉ (renderRow texts).toList := by
  have hcells : '\r' ∉ (" | ".intercalate texts).toList := h.intercalate (by decide)
  simp only [Literate.renderRow, String.toList_append, List.mem_append, not_or]
  exact ⟨⟨by decide, hcells⟩, by decide⟩

theorem quoteLines (h : '\r' ∉ text.toList) : '\r' ∉ (quoteLines text).toList := by
  refine joinLines fun quoted hquoted => ?_
  obtain ⟨line, hline, rfl⟩ := List.mem_map.mp hquoted
  have hchars := lines h line hline
  rw [quoteLine]
  split
  · decide
  · simp [hchars]

theorem renderItem {marker : String} (hmarker : '\r' ∉ marker.toList) (h : '\r' ∉ text.toList) :
    '\r' ∉ (renderItem marker text).toList := by
  have hlines := lines h
  rw [Literate.renderItem]
  split
  · rw [String.toList_ofList, Text.dropEndWhile, List.mem_reverse]
    exact fun hmem => hmarker (List.mem_reverse.mp ((List.dropWhile_suffix _).subset hmem))
  · rename_i line rest hsplit
    rw [hsplit, cons_iff] at hlines
    refine joinLines (cons_iff.mpr ⟨by simp [hmarker, hlines.1], fun other hother => ?_⟩)
    obtain ⟨inner, hinner, rfl⟩ := List.mem_map.mp hother
    have hchars := hlines.2 inner hinner
    split
    · decide
    · simp [Text.repeated, hchars]

theorem renderOrdered (h : Unreturned texts) (number : UInt64) : Unreturned (renderOrdered number texts) := by
  induction texts generalizing number with
  | nil => exact h
  | cons text texts ih =>
    have hmarker : '\r' ∉ (orderedMarker number).toList := by
      have hdigits : '\r' ∉ (toString number.toNat).toList := fun hmem =>
        absurd (Markdown.isDigit_of_mem_toString hmem) (by decide)
      simp only [orderedMarker, String.toList_append, List.mem_append, not_or]
      exact ⟨hdigits, by decide⟩
    exact cons_iff.mpr ⟨renderItem hmarker (cons_iff.mp h).1, ih (cons_iff.mp h).2 _⟩

end Unreturned

/-- What is in blocks has no carriage return in its strings if they have none. -/
theorem Unreturned.of_mem {block : Block} {blocks : List Block} (hmember : block ∈ blocks)
    (h : Unreturned (stringsIn blocks)) : Unreturned block.strings :=
  fun text htext => h text (mem_stringsIn.mpr ⟨block, hmember, htext⟩)

-- ---------------------------------------------------------------------------
-- Trees
-- ---------------------------------------------------------------------------

theorem Attr.unreturned_show {attr : Attr} (h : Unreturned attr.strings) : '\r' ∉ attr.show.toList := by
  obtain ⟨⟨hid, hclasses⟩, hpairs⟩ : ('\r' ∉ attr.id.toList ∧ Unreturned attr.classes) ∧
      Unreturned (attr.pairs.flatMap fun (key, value) => [key, value]) := by
    rwa [Attr.strings, Unreturned.append_iff, Unreturned.cons_iff] at h
  have hitems : Unreturned attr.items := by
    rw [Attr.items, Unreturned.append_iff, Unreturned.append_iff]
    refine ⟨⟨?_, fun item hitem => ?_⟩, fun item hitem => ?_⟩
    · split
      · exact fun _ hnone => absurd hnone List.not_mem_nil
      · exact Unreturned.cons_iff.mpr ⟨by simp [hid], fun _ hnone => absurd hnone List.not_mem_nil⟩
    · obtain ⟨name, hname, rfl⟩ := List.mem_map.mp hitem
      have hchars := hclasses name hname
      simp [hchars]
    · obtain ⟨⟨key, value⟩, hpair, rfl⟩ := List.mem_map.mp hitem
      have hkey := hpairs key (List.mem_flatMap.mpr ⟨_, hpair, by simp⟩)
      have hvalue := hpairs value (List.mem_flatMap.mpr ⟨_, hpair, by simp⟩)
      simp [hkey, hvalue]
  have hwritten : '\r' ∉ (" ".intercalate attr.items).toList := hitems.intercalate (by decide)
  simp only [Attr.show, String.toList_append, List.mem_append, not_or]
  exact ⟨⟨by decide, hwritten⟩, by decide⟩

theorem Attr.unreturned_showNonempty {attr : Attr} (h : Unreturned attr.strings) :
    '\r' ∉ attr.showNonempty.toList := by
  rw [Attr.showNonempty]
  split
  · decide
  · exact Attr.unreturned_show h

mutual

/-- What an inline is written with has no carriage return if its strings have none. -/
theorem Inline.unreturned_texts : ∀ i : Inline, Unreturned i.strings → Unreturned i.texts
  | .text _, h | .html _, h | .math _ _, h => h
  | .code attr text, h => by
    rw [Inline.strings, Unreturned.cons_iff] at h
    exact Unreturned.cons_iff.mpr ⟨h.1, Unreturned.cons_iff.mpr
      ⟨Attr.unreturned_showNonempty h.2, fun _ hnone => absurd hnone List.not_mem_nil⟩⟩
  | .emphasis content, h | .strong content, h | .strikethrough content, h =>
    unreturned_textsOf content h
  | .link dest title content, h | .image dest title content, h => by
    rw [Inline.strings, Unreturned.cons_iff, Unreturned.cons_iff] at h
    rw [Inline.texts, Unreturned.cons_iff, Unreturned.cons_iff]
    exact ⟨h.1, h.2.1, unreturned_textsOf content h.2.2⟩
  | .span attr content, h => by
    rw [Inline.strings, Unreturned.append_iff] at h
    exact Unreturned.cons_iff.mpr ⟨Attr.unreturned_show h.1, unreturned_textsOf content h.2⟩
  | .softBreak, _ | .hardBreak, _ => fun text htext => by
    rw [List.mem_singleton.mp htext]
    decide

theorem unreturned_textsOf :
    ∀ inlines : List Inline, Unreturned (stringsOf inlines) → Unreturned (textsOf inlines)
  | [], h => h
  | i :: is, h => by
    rw [stringsOf, Unreturned.append_iff] at h
    exact Unreturned.append_iff.mpr ⟨Inline.unreturned_texts i h.1, unreturned_textsOf is h.2⟩

end

theorem unreturned_renderInlines {inlines : List Inline} (h : Unreturned (stringsOf inlines)) :
    '\r' ∉ (renderInlines inlines).toList := by
  rw [mem_renderInlines_iff (.inr (.inr rfl))]
  rintro ⟨text, htext, hmem⟩
  exact unreturned_textsOf inlines h text htext hmem

theorem unreturned_renderCodeBlock {attr : Attr} {text : String} (hattr : Unreturned attr.strings)
    (htext : '\r' ∉ text.toList) : '\r' ∉ (renderCodeBlock attr text).toList := by
  have hinfo := Attr.unreturned_showNonempty hattr
  have hbody : '\r' ∉ text.toList.dropLast := fun hmem => htext (List.mem_of_mem_dropLast hmem)
  rw [renderCodeBlock]
  by_cases hlast : text.toList.getLast? = some '\n' <;> simp [hlast, Text.repeated, hinfo, hbody, htext]

theorem unreturned_columns (alignments : List Alignment) : '\r' ∉ (columnsText alignments).toList := by
  have hdashes : Unreturned (alignments.map Alignment.dashes) := by
    intro text htext
    obtain ⟨alignment, -, rfl⟩ := List.mem_map.mp htext
    cases alignment <;> decide
  have hjoined : '\r' ∉ ("|".intercalate (alignments.map Alignment.dashes)).toList :=
    hdashes.intercalate (by decide)
  simp only [columnsText, String.toList_append, List.mem_append, not_or]
  exact ⟨⟨by decide, hjoined⟩, by decide⟩

theorem unreturned_asRow {block : Block} {text : String} (h : '\r' ∉ text.toList) :
    '\r' ∉ (asRow block text).toList := by
  rw [asRow]
  split
  · exact h
  · exact Unreturned.renderRow (Unreturned.cons_iff.mpr ⟨h, fun _ hnone => absurd hnone List.not_mem_nil⟩)

mutual

/-- **Carriage returns.** None is in the text of a block if none is in its strings. -/
theorem Block.unreturned_render : ∀ block : Block, Unreturned block.strings → '\r' ∉ block.render.toList
  | .plain _, h | .paragraph _, h | .tableCell _, h => unreturned_renderInlines h
  | .heading level attr content, h => by
    rw [Block.strings, Unreturned.append_iff] at h
    have hattr := Attr.unreturned_show h.1
    have hcontent := unreturned_renderInlines h.2
    cases hempty : attr.isEmpty <;> simp [Block.render, Text.repeated, hempty, hattr, hcontent]
  | .codeBlock attr text, h =>
    unreturned_renderCodeBlock (Unreturned.cons_iff.mp h).2 (Unreturned.cons_iff.mp h).1
  | .blockQuote content, h => Unreturned.quoteLines (unreturned_renderEach content h).joinBlocks
  | .orderedList start items, h => ((unreturned_renderEach items h).renderOrdered start).joinLines
  | .bulletList items, h => Unreturned.joinLines fun item hitem => by
    obtain ⟨text, htext, rfl⟩ := List.mem_map.mp hitem
    exact Unreturned.renderItem (by decide) (unreturned_renderEach items h text htext)
  | .listItem content, h => (unreturned_renderEach content h).joinBlocks
  | .table alignments head rows, h => by
    rw [Block.strings, Unreturned.append_iff] at h
    refine Unreturned.joinLines (Unreturned.cons_iff.mpr ⟨unreturned_asRow (Block.unreturned_render head h.1),
      Unreturned.cons_iff.mpr ⟨unreturned_columns alignments, fun row hrow => ?_⟩⟩)
    rw [← List.map_uncurry_zip_eq_zipWith] at hrow
    obtain ⟨⟨block, text⟩, hpair, rfl⟩ := List.mem_map.mp hrow
    exact unreturned_asRow (unreturned_renderEach rows h.2 text (List.of_mem_zip hpair).2)
  | .tableRow cells, h => (unreturned_renderEach cells h).renderRow
  | .div attr content, h => by
    rw [Block.strings, Unreturned.append_iff] at h
    have hattr := Attr.unreturned_show h.1
    have hcontent := (unreturned_renderEach content h.2).joinBlocks
    simp [Block.render, hattr, hcontent]
  | .html text, h => by
    have htext := (Unreturned.cons_iff.mp h).1
    rw [Block.render, String.toList_ofList, Text.dropEndWhile, List.mem_reverse]
    exact fun hmem => htext (List.mem_reverse.mp ((List.dropWhile_suffix _).subset hmem))
  | .rule, _ => by decide

theorem unreturned_renderEach :
    ∀ blocks : List Block, Unreturned (stringsIn blocks) → Unreturned (renderEach blocks)
  | [], h => h
  | block :: blocks, h => by
    rw [stringsIn, Unreturned.append_iff] at h
    exact Unreturned.cons_iff.mpr ⟨Block.unreturned_render block h.1, unreturned_renderEach blocks h.2⟩

end

end Literate
