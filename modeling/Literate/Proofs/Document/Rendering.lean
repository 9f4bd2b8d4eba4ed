import Literate.Document.Render
import Literate.Document.Source
import Literate.Proofs.Text.Lines
import Literate.Proofs.Markdown.Assembly
import Literate.Proofs.Markdown.ReadBack

/-!
# Blocks written on their lines

The renderer puts texts together and takes them apart again into lines to set marks in front of them. For blocks
that can be laid out on lines (`Block.Laid`) it comes to these lines: no line end is in them, the last one is not
empty (`AreLines`), and so what is put together is what is taken apart.

Main results: `Block.Laid.render` and `Blocks.Laid.render`, by induction over how the blocks are laid out.
-/

namespace Literate.Markdown

open Text (joinLines repeated)

-- ---------------------------------------------------------------------------
-- Lines
-- ---------------------------------------------------------------------------

/-- Lines without line ends in them, the last of them not empty. -/
structure AreLines (lines : List (List Char)) : Prop where
  ne_nil : lines ≠ []
  literal : ∀ line ∈ lines, IsLiteral line
  last : ∀ line ∈ lines.getLast?, line ≠ []

theorem AreLines.lines_eq {lines : List (List Char)} (h : AreLines lines) {text : String}
    (htext : text.toList = ['\n'].intercalate lines) : Text.lines text = lines.map String.ofList := by
  have hfeeds := Text.splitFeeds_intercalate h.ne_nil fun line hline => (h.literal line hline).1
  have hlines := Text.linesOfPieces_eq
    (fun line hline hreturn => (h.literal line hline).2 (List.mem_of_getLast? hreturn)) h.last
  rw [Text.lines, htext, Text.charLines, hfeeds, hlines]

theorem AreLines.append {lines more : List (List Char)} (hlines : ∀ line ∈ lines, IsLiteral line)
    (h : AreLines more) : AreLines (lines ++ more) := by
  refine ⟨fun hnil => h.ne_nil (List.append_eq_nil_iff.1 hnil).2, ?_, ?_⟩
  · intro line hline
    rcases List.mem_append.1 hline with hline | hline
    · exact hlines line hline
    · exact h.literal line hline
  · rw [List.getLast?_append_of_ne_nil _ h.ne_nil]
    exact h.last

theorem isLiteral_nil : IsLiteral [] :=
  ⟨List.not_mem_nil, List.not_mem_nil⟩

theorem AreLines.behindEmpty {lines : List (List Char)} (h : AreLines lines) : AreLines ([] :: lines) := by
  have hempty : ∀ line ∈ [[]], IsLiteral line := by
    intro line hline
    rw [List.mem_singleton.1 hline]
    exact isLiteral_nil
  exact .append hempty h

theorem IsLiteral.append {first second : List Char} (h : IsLiteral first) (hsecond : IsLiteral second) :
    IsLiteral (first ++ second) :=
  ⟨fun hmem => (List.mem_append.1 hmem).elim h.1 hsecond.1,
    fun hmem => (List.mem_append.1 hmem).elim h.2 hsecond.2⟩

theorem isLiteral_of_isLineEnd {line : List Char} (h : ∀ c ∈ line, isLineEnd c = false) :
    IsLiteral line := by
  constructor
  · intro hmem
    cases h _ hmem
  · intro hmem
    cases h _ hmem

theorem IsLiteral.cons {line : List Char} (h : IsLiteral line) {c : Char} (hc : isLineEnd c = false) :
    IsLiteral (c :: line) := by
  refine ⟨fun hmem => ?_, fun hmem => ?_⟩
  · rcases List.mem_cons.1 hmem with rfl | hmem
    · cases hc
    · exact h.1 hmem
  · rcases List.mem_cons.1 hmem with rfl | hmem
    · cases hc
    · exact h.2 hmem

theorem isLiteral_replicate {c : Char} (h : isLineEnd c = false) (n : Nat) :
    IsLiteral (List.replicate n c) :=
  isLiteral_of_isLineEnd fun _ hd => List.eq_of_mem_replicate hd ▸ h

theorem IsTextLine.isLiteral {line : List Char} (h : IsTextLine line) : IsLiteral line :=
  isLiteral_of_isLineEnd fun c hc => (h.inside c hc).1

theorem areLines_writtenLines {line : TextLine} {lines : List TextLine}
    (h : ∀ other ∈ line :: lines, other.Fair) : AreLines (writtenLines (line :: lines)) := by
  have htext := isTextLine_of_mem_writtenLines h
  refine ⟨writtenLines_ne_nil line lines, fun other hother => (htext other hother).isLiteral, ?_⟩
  intro other hother
  obtain ⟨c, cs, rfl, -⟩ := (htext other (List.mem_of_getLast? hother)).first
  exact List.cons_ne_nil c cs

theorem areLines_singleton {line : List Char} (h : IsLiteral line) (hne : line ≠ []) :
    AreLines [line] := by
  refine ⟨List.cons_ne_nil _ _, by simpa using h, ?_⟩
  intro other hother
  obtain rfl : line = other := by simpa using hother
  exact hne

theorem isLiteral_groupBehind {attr : Attr} (h : HasNames attr) : IsLiteral (groupBehind attr) := by
  unfold groupBehind
  split
  · exact isLiteral_nil
  · rw [toList_show_group]
    have hgroup : IsLiteral (groupText attr) := isLiteral_of_isLineEnd fun c hc => by
      have hchar := isGroupChar_of_mem h c hc
      simp only [Bool.not_eq_true', Bool.or_eq_false_iff] at hchar
      exact hchar.2
    exact ((hgroup.append (isLiteral_nil.cons (c := '\x7d') rfl)).cons rfl).cons rfl

theorem areLines_heading {level : UInt8} {line : TextLine} (h : line.Fair) {attr : Attr}
    (hattr : HasNames attr) : AreLines [headingLine level attr line.inlines] := by
  have htext := h.isTextLine false
  rw [if_neg Bool.false_ne_true, List.append_nil] at htext
  refine areLines_singleton ?_ (by simp [headingLine])
  have hbehind := (htext.isLiteral.append (isLiteral_groupBehind hattr)).cons (c := ' ') rfl
  exact (isLiteral_replicate rfl level.toNat).append hbehind

theorem areLines_fencedLines {attr : Attr} (hattr : IsInfo attr) {lines : List (List Char)}
    (hlines : ∀ line ∈ lines, IsLiteral line) : AreLines (fencedLines attr lines) := by
  have hfence := isLiteral_replicate (c := '\x60') rfl (fenceSize lines)
  have hinfo : IsLiteral (infoText attr) :=
    isLiteral_of_isLineEnd fun c hc => (hattr.of_mem_infoText c hc).2.2.2
  have hclose : AreLines [List.replicate (fenceSize lines) '\x60'] :=
    areLines_singleton hfence (mt (List.replicate_eq_nil_iff _).1 (fenceSize_ne_zero lines))
  have hopen : ∀ line ∈ (List.replicate (fenceSize lines) '\x60' ++ infoText attr) :: lines,
      IsLiteral line := List.forall_mem_cons.2 ⟨hfence.append hinfo, hlines⟩
  exact .append hopen hclose

theorem areLines_table {t : Table} (h : t.Fair) : AreLines t.lines := by
  have hliteral : ∀ line ∈ t.lines, IsLiteral line := fun line hline => isLiteral_of_isLineEnd (inline_lines h line hline)
  refine ⟨List.cons_ne_nil _ _, hliteral, fun line hline => ?_⟩
  obtain ⟨text, htext, rfl⟩ := List.mem_map.1 (List.mem_of_getLast? hline)
  have hbar := bar_ends_texts t text htext
  intro hnil
  rw [hnil] at hbar
  cases hbar

theorem AreLines.quoted {lines : List (List Char)} (h : AreLines lines) :
    AreLines (lines.map quotedLine) := by
  refine ⟨by simpa using h.ne_nil, ?_, ?_⟩
  · intro line hline
    obtain ⟨other, hother, rfl⟩ := List.mem_map.1 hline
    unfold quotedLine
    split
    · exact isLiteral_nil.cons rfl
    · exact ((h.literal other hother).cons rfl).cons rfl
  · intro line hline
    rw [List.getLast?_map] at hline
    obtain ⟨other, -, rfl⟩ := Option.map_eq_some_iff.1 hline
    unfold quotedLine
    split <;> exact List.cons_ne_nil _ _

theorem isLiteral_markerText {start : Option UInt64} : IsLiteral (markerText start) := by
  cases start with
  | none => exact isLiteral_nil.cons rfl
  | some number =>
    refine IsLiteral.append ?_ (isLiteral_nil.cons rfl)
    exact isLiteral_of_isLineEnd fun c hc => (not_isDigit_facts (isDigit_of_mem_toString hc)).2.1

theorem AreLines.item {lines : List (List Char)} (h : AreLines lines) {marker : List Char}
    (hmarker : IsLiteral marker) : AreLines (itemLines marker lines) := by
  obtain ⟨line, lines, rfl⟩ := List.exists_cons_of_ne_nil h.ne_nil
  obtain ⟨hline, hlines⟩ := List.forall_mem_cons.1 h.literal
  refine ⟨List.cons_ne_nil _ _, ?_, ?_⟩
  · intro other hother
    rcases List.mem_cons.1 hother with rfl | hother
    · exact hmarker.append (hline.cons rfl)
    · obtain ⟨inner, hinner, rfl⟩ := List.mem_map.1 hother
      unfold indentedLine
      split
      · exact isLiteral_nil
      · exact (isLiteral_replicate rfl _).append (hlines inner hinner)
  · intro other hother
    rcases List.eq_nil_or_concat lines with rfl | ⟨front, last, rfl⟩
    · obtain rfl : marker ++ ' ' :: line = other := by simpa [itemLines] using hother
      simp
    · have hne : last ≠ [] := h.last last (by simp [List.getLast?_cons])
      obtain rfl : indentedLine (marker.length + 1) last = other := by
        simpa [itemLines, List.getLast?_cons] using hother
      simp [indentedLine, hne]

mutual
theorem Block.Laid.areLines : ∀ {bare : Bool} {block : Block} {lines : List (List Char)},
    Block.Laid bare block lines → AreLines lines
  | _, _, _, .paragraph fair => areLines_writtenLines fair
  | _, _, _, .plain fair => areLines_writtenLines fair
  | _, _, _, .heading _ _ _ fair _ _ names => areLines_heading fair names
  | _, _, _, .code _ info _ literal => areLines_fencedLines info literal
  | _, _, _, .table _ fair => areLines_table fair
  | _, _, _, .rule _ => areLines_singleton (isLiteral_replicate (c := '-') rfl 3) (List.cons_ne_nil _ _)
  | _, _, _, .quote _ inside => (Blocks.Laid.areLines inside).quoted
  | _, _, _, .list _ inside => Items.Laid.areLines inside
theorem Blocks.Laid.areLines : ∀ {bare : Bool} {blocks : List Block} {lines : List (List Char)},
    Blocks.Laid bare blocks lines → AreLines lines
  | _, _, _, .single head => Block.Laid.areLines head
  | _, _, _, .cons head tail _ =>
    .append (Block.Laid.areLines head).literal (Blocks.Laid.areLines tail).behindEmpty
theorem Items.Laid.areLines : ∀ {bare : Bool} {start : Option UInt64} {items : List Block}
    {lines : List (List Char)}, Items.Laid bare start items lines → AreLines lines
  | _, _, _, _, .single _ inside _ => (Blocks.Laid.areLines inside).item isLiteral_markerText
  | _, _, _, _, .cons _ inside _ tail =>
    .append ((Blocks.Laid.areLines inside).item isLiteral_markerText).literal (Items.Laid.areLines tail)
end

-- ---------------------------------------------------------------------------
-- Writing
-- ---------------------------------------------------------------------------

/-- Lines put together as a text. -/
def joined (lines : List (List Char)) : List Char :=
  ['\n'].intercalate lines

theorem joined_append {lines more : List (List Char)} (hlines : lines ≠ []) (hmore : more ≠ []) :
    joined (lines ++ more) = joined lines ++ '\n' :: joined more := by
  rw [joined, Text.intercalate_append hlines hmore, List.append_assoc]
  rfl

theorem feeds_eq_joined {lines : List (List Char)} (h : lines ≠ []) :
    feeds lines = joined lines ++ ['\n'] := by
  induction lines with
  | nil => exact absurd rfl h
  | cons line lines ih =>
    cases lines with
    | nil => simp [feeds, joined]
    | cons next lines =>
      have hrest := ih (List.cons_ne_nil next lines)
      rw [feeds_cons, hrest, joined, joined, List.intercalate_cons_cons]
      simp

theorem toList_repeated (n : Nat) (c : Char) : (repeated n c).toList = List.replicate n c :=
  String.toList_ofList

theorem toList_heading (level : UInt8) (attr : Attr) (content : List Inline) :
    (Block.heading level attr content).render.toList = headingLine level attr content := by
  rw [Block.render, headingLine, groupBehind]
  cases attr.isEmpty <;> simp [toList_repeated, spelling]

/-- A block of code is written with its fences. -/
theorem toList_renderCodeBlock (attr : Attr) {lines : List (List Char)} (h : lines ≠ []) :
    (renderCodeBlock attr (String.ofList (feeds lines))).toList = joined (fencedLines attr lines) := by
  have hfence : max (longestTicks (String.ofList (feeds lines)) + 1) 3 = fenceSize lines := by
    rw [longestTicks, String.toList_ofList, fenceSize]
  have hinfo : attr.showNonempty.toList = infoText attr := by
    rw [Attr.showNonempty, infoText]
    cases attr.isEmpty <;> rfl
  have hlast : (feeds lines).getLast? = some '\n' := by
    rw [feeds_eq_joined h, List.getLast?_concat]
  have hbody : (feeds lines).dropLast = joined lines := by
    rw [feeds_eq_joined h, List.dropLast_concat]
  have hjoined : joined (fencedLines attr lines) = List.replicate (fenceSize lines) '\x60' ++
      infoText attr ++ '\n' :: (joined lines ++ '\n' :: List.replicate (fenceSize lines) '\x60') := by
    have hclose := joined_append h (List.cons_ne_nil (List.replicate (fenceSize lines) '\x60') [])
    have hne : lines ++ [List.replicate (fenceSize lines) '\x60'] ≠ [] := by simp
    rw [fencedLines, joined, List.intercalate_cons_of_ne_nil hne, ← joined, hclose]
    simp [joined]
  rw [renderCodeBlock, hfence]
  simp only [String.toList_ofList, hlast, if_pos, hbody, String.toList_append, toList_repeated, hinfo]
  rw [hjoined]
  simp

theorem toList_quoteLines {text : String} {lines : List (List Char)} (h : AreLines lines)
    (htext : text.toList = joined lines) :
    (quoteLines text).toList = joined (lines.map quotedLine) := by
  have hline : ∀ line : List Char, (quoteLine (String.ofList line)).toList = quotedLine line := by
    intro line
    unfold quoteLine quotedLine
    cases line <;> simp
  rw [quoteLines, h.lines_eq htext, joinLines, String.toList_intercalate, List.map_map, List.map_map]
  have hmap : lines.map ((String.toList ∘ quoteLine) ∘ String.ofList) = lines.map quotedLine :=
    List.map_congr_left fun line _ => hline line
  rw [hmap]
  rfl

/-- The marker of an item with the space behind it. -/
def markerString : Option UInt64 → String
  | none => "- "
  | some number => orderedMarker number

theorem toList_markerString (start : Option UInt64) :
    (markerString start).toList = markerText start ++ [' '] := by
  cases start with
  | none => rfl
  | some number => simp [markerString, orderedMarker, markerText]

theorem toList_renderItem {text : String} {lines : List (List Char)} (h : AreLines lines)
    (htext : text.toList = joined lines) (start : Option UInt64) :
    (renderItem (markerString start) text).toList = joined (itemLines (markerText start) lines) := by
  obtain ⟨line, lines, rfl⟩ := List.exists_cons_of_ne_nil h.ne_nil
  have hmarker := toList_markerString start
  have hwidth : (markerString start).length = (markerText start).length + 1 := by
    rw [← String.length_toList, hmarker, List.length_append, List.length_singleton]
  have hline : ∀ other : List Char,
      (if (String.ofList other).isEmpty then ""
        else repeated (markerString start).length ' ' ++ String.ofList other).toList =
        indentedLine ((markerText start).length + 1) other := by
    intro other
    rw [hwidth]
    unfold indentedLine
    cases other <;> simp [toList_repeated]
  rw [renderItem, h.lines_eq htext, List.map_cons]
  simp only [joinLines, String.toList_intercalate, List.map_cons, List.map_map, String.toList_append,
    hmarker, String.toList_ofList]
  have hmap : lines.map (String.toList ∘ (fun line => if line.isEmpty then ""
      else repeated (markerString start).length ' ' ++ line) ∘ String.ofList) =
      lines.map (indentedLine ((markerText start).length + 1)) :=
    List.map_congr_left fun other _ => hline other
  rw [hmap]
  simp [joined, itemLines]

/-- The entries of a list, with numbers from `start` on or with bullets. -/
def renderList (start : Option UInt64) (texts : List String) : List String :=
  match start with
  | none => texts.map (renderItem "- ")
  | some number => renderOrdered number texts

theorem renderList_cons (start : Option UInt64) (text : String) (texts : List String) :
    renderList start (text :: texts) =
      renderItem (markerString start) text :: renderList (start.map (· + 1)) texts := by
  cases start <;> rfl

theorem render_listOf (start : Option UInt64) (items : List Block) :
    (listOf start items).render = joinLines (renderList start (renderEach items)) := by
  cases start <;> rfl

theorem toList_joinBlocks_cons {text next : String} (htext : text ≠ "") (hnext : next ≠ "")
    (texts : List String) :
    (joinBlocks (text :: next :: texts)).toList =
      text.toList ++ '\n' :: '\n' :: (joinBlocks (next :: texts)).toList := by
  simp [joinBlocks, htext, hnext, String.toList_intercalate]

theorem joinBlocks_singleton (text : String) : joinBlocks [text] = text := by
  unfold joinBlocks
  cases hempty : text.isEmpty with
  | true =>
    rw [String.isEmpty_iff.1 hempty]
    rfl
  | false => simp [hempty]

theorem AreLines.joined_ne_nil {lines : List (List Char)} (h : AreLines lines) : joined lines ≠ [] := by
  intro hnil
  obtain ⟨line, hline⟩ := Option.ne_none_iff_exists'.1 (mt List.getLast?_eq_none_iff.1 h.ne_nil)
  have hinfix := Text.infix_intercalate ['\n'] (List.mem_of_getLast? hline)
  rw [← joined, hnil] at hinfix
  exact h.last line hline (List.eq_nil_of_infix_nil hinfix)

theorem ne_empty_of_joined {lines : List (List Char)} (h : AreLines lines) {text : String}
    (htext : text.toList = joined lines) : text ≠ "" := by
  rintro rfl
  exact h.joined_ne_nil htext.symm

theorem joined_cons {lines : List (List Char)} (h : lines ≠ []) (line : List Char) :
    joined (line :: lines) = line ++ '\n' :: joined lines := by
  rw [joined, List.intercalate_cons_of_ne_nil h, List.append_assoc]
  rfl

theorem toList_joinLines_cons (line : String) {lines : List String} (h : lines ≠ []) :
    (joinLines (line :: lines)).toList = line.toList ++ '\n' :: (joinLines lines).toList := by
  have hmap : lines.map String.toList ≠ [] := by simpa using h
  rw [joinLines, String.toList_intercalate, List.map_cons, List.intercalate_cons_of_ne_nil hmap,
    joinLines, String.toList_intercalate, List.append_assoc]
  rfl

theorem renderList_ne_nil {start : Option UInt64} {texts : List String} (h : texts ≠ []) :
    renderList start texts ≠ [] := by
  obtain ⟨text, texts, rfl⟩ := List.exists_cons_of_ne_nil h
  rw [renderList_cons]
  exact List.cons_ne_nil _ _

/-- Texts of blocks that are put together on lines, none of them empty. -/
structure WrittenOn (texts : List String) (lines : List (List Char)) : Prop where
  joined : (joinBlocks texts).toList = joined lines
  ne_empty : ∀ text ∈ texts, text ≠ ""

theorem WrittenOn.single {text : String} {lines : List (List Char)} (h : AreLines lines)
    (htext : text.toList = Markdown.joined lines) : WrittenOn [text] lines := by
  refine ⟨by rw [joinBlocks_singleton, htext], ?_⟩
  intro other hother
  rw [List.mem_singleton.1 hother]
  exact ne_empty_of_joined h htext

theorem WrittenOn.cons {text next : String} {texts : List String} {lines more : List (List Char)}
    (h : AreLines lines) (htext : text.toList = Markdown.joined lines) (hmore : AreLines more)
    (htexts : WrittenOn (next :: texts) more) :
    WrittenOn (text :: next :: texts) (lines ++ [] :: more) := by
  have hne := ne_empty_of_joined h htext
  have hnext := htexts.ne_empty next (List.mem_cons_self ..)
  refine ⟨?_, List.forall_mem_cons.2 ⟨hne, htexts.ne_empty⟩⟩
  rw [toList_joinBlocks_cons hne hnext, htexts.joined, htext,
    joined_append h.ne_nil (List.cons_ne_nil _ _), joined_cons hmore.ne_nil]
  rfl

/-- Items of a list that are put together on lines. -/
def ItemsWrittenOn (start : Option UInt64) (items : List Block) (lines : List (List Char)) : Prop :=
  (joinLines (renderList start (renderEach items))).toList = joined lines

theorem ItemsWrittenOn.single {blocks : List Block} {lines : List (List Char)} (hlines : AreLines lines)
    (h : WrittenOn (renderEach blocks) lines) (start : Option UInt64) :
    ItemsWrittenOn start [.listItem blocks] (itemLines (markerText start) lines) := by
  have hitem := toList_renderItem hlines h.joined start
  have hnone : renderList (start.map (· + 1)) [] = [] := by cases start <;> rfl
  rw [ItemsWrittenOn, renderEach, Block.render, renderList_cons, renderEach, hnone, joinLines,
    String.toList_intercalate, List.map_singleton, List.intercalate_singleton]
  exact hitem

theorem ItemsWrittenOn.cons {blocks items : List Block} {lines more : List (List Char)}
    (hlines : AreLines lines) (h : WrittenOn (renderEach blocks) lines) {start : Option UInt64}
    (hmore : AreLines more) (hitems : items ≠ []) (htail : ItemsWrittenOn (start.map (· + 1)) items more) :
    ItemsWrittenOn start (.listItem blocks :: items) (itemLines (markerText start) lines ++ more) := by
  have hitem := toList_renderItem hlines h.joined start
  obtain ⟨item, others, rfl⟩ := List.exists_cons_of_ne_nil hitems
  have hrest : renderList (start.map (· + 1)) (renderEach (item :: others)) ≠ [] :=
    renderList_ne_nil (List.cons_ne_nil _ _)
  have hmarked : AreLines (itemLines (markerText start) lines) := hlines.item isLiteral_markerText
  rw [ItemsWrittenOn, renderEach, Block.render, renderList_cons, toList_joinLines_cons _ hrest, htail,
    joined_append hmarked.ne_nil hmore.ne_nil]
  exact congrArg (· ++ _) hitem

mutual
/-- A block is written on its lines. -/
theorem Block.Laid.render : ∀ {bare : Bool} {block : Block} {lines : List (List Char)},
    Block.Laid bare block lines → block.render.toList = joined lines
  | _, _, _, .paragraph _ => spelling_contentOf _
  | _, _, _, .plain _ => spelling_contentOf _
  | _, _, _, .heading .. => (toList_heading ..).trans (List.intercalate_singleton ..).symm
  | _, _, _, .code _ _ ne_nil _ => toList_renderCodeBlock _ ne_nil
  | _, _, _, @Block.Laid.table _ t _ => t.toList_render
  | _, _, _, .rule _ => rfl
  | _, _, _, .quote _ inside => toList_quoteLines inside.areLines (Blocks.Laid.render inside).joined
  | _, _, _, .list _ inside => by
    rw [render_listOf]
    exact Items.Laid.render inside
/-- Blocks are written on their lines, with an empty line between each two. -/
theorem Blocks.Laid.render : ∀ {bare : Bool} {blocks : List Block} {lines : List (List Char)},
    Blocks.Laid bare blocks lines → WrittenOn (renderEach blocks) lines
  | _, _, _, .single head => .single head.areLines (Block.Laid.render head)
  | _, _, _, .cons head tail _ =>
    .cons head.areLines (Block.Laid.render head) tail.areLines (Blocks.Laid.render tail)
/-- The items of a list are written on their lines. -/
theorem Items.Laid.render : ∀ {bare : Bool} {start : Option UInt64} {items : List Block}
    {lines : List (List Char)}, Items.Laid bare start items lines → ItemsWrittenOn start items lines
  | _, _, _, _, .single _ inside _ => .single inside.areLines (Blocks.Laid.render inside) _
  | _, _, _, _, .cons _ inside _ tail =>
    .cons inside.areLines (Blocks.Laid.render inside) tail.areLines tail.ne_nil (Items.Laid.render tail)
end

end Literate.Markdown
