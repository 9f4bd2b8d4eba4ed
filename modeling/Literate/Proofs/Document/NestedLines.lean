import Literate.Proofs.Document.Rendering
import Literate.Proofs.Document.Strings

/-!
# Lines in quotes and lists

A quote is written with a mark in front of each line of its content, a list with the marker of an item in front
of the first line of the item and columns of the marker's width in front of the others. Empty lines have a bare
mark in a quote and nothing in an item. All of this can be taken off again, level by level, so the lines of a
code block come through quotes and lists as they are (`Block.Holds.lines`).

There is one exception. If the last line of a list is empty, it is written as a line feed at the end of the text
of the list, and that has no line behind it (`Block.lines_list_break`).

Main result: `Block.unnests`.
-/

namespace Literate

open Text (charLines splitFeeds dropFeed joinLines)
open Markdown (listOf renderList markerString markerText renderList_cons render_listOf toList_markerString
  quotedLine indentedLine IsLiteral)

/-- The lines of the text of a block. -/
def Block.lines (block : Block) : List (List Char) :=
  charLines block.render.toList

/-- The lines of the text of blocks put together. -/
def linesOf (blocks : List Block) : List (List Char) :=
  charLines (renderBlocks blocks).toList

-- ---------------------------------------------------------------------------
-- Marks
-- ---------------------------------------------------------------------------

/-- What is on a line behind the mark of a quote. The mark stands there bare if that is nothing. -/
def behindQuote? : List Char → Option (List Char)
  | ['>'] => some []
  | '>' :: ' ' :: line => some line
  | _ => none

/-- What is on a line behind so many columns. There are none on an empty line. -/
def behindColumns? (width : Nat) (line : List Char) : Option (List Char) :=
  if line = [] then some []
  else if List.replicate width ' ' <+: line then some (line.drop width) else none

/-- The marker of an item of a list, which is numbered from `start` on or has bullets. -/
def markerAt : Option UInt64 → Nat → List Char
  | none, _ => ['-', ' ']
  | some number, k => (toString (number.toNat + k)).toList ++ ['.', ' ']

/-- The lines that an item is written on, by its own lines: they stand behind the marker and below it behind
columns of the same width. An item without lines leaves the marker without the space. -/
inductive IsItem : List Char → List (List Char) → List (List Char) → Prop where
  | bare {mark : List Char} : IsItem (mark ++ [' ']) [] [mark]
  | marked {marker line : List Char} {lines below : List (List Char)}
      (indented : below.map (behindColumns? marker.length) = lines.map some) :
      IsItem marker (line :: lines) ((marker ++ line) :: below)

theorem IsItem.length_eq {marker line : List Char} {lines group : List (List Char)}
    (h : IsItem marker (line :: lines) group) : group.length = lines.length + 1 := by
  cases h with
  | marked indented => simpa using congrArg List.length indented

/-- Whether a block has two lines or more, the last of them empty. -/
def Block.endsEmpty (block : Block) : Bool :=
  decide (2 ≤ block.lines.length) && decide (block.lines.getLast? = some [])

/-- What stands around a block: a quote, or an item of a list with its marker. -/
inductive Layer where
  | quote
  | item (marker : List Char)

/-- What is on a line behind the marks of a layer. -/
def Layer.behind? : Layer → List Char → Option (List Char)
  | .quote, line => behindQuote? line
  | .item marker, line =>
    if marker <+: line then some (line.drop marker.length) else behindColumns? marker.length line

/-- What is on a line behind the marks of all layers, the outermost first. -/
def behindAll? (layers : List Layer) (line : List Char) : Option (List Char) :=
  layers.foldlM (fun line layer => layer.behind? line) line

/-- Whether the numbers of all items are below 2 ^ 64, as that of the first is. -/
def Numbered (start : Option UInt64) (items : List Block) : Prop :=
  ∀ number ∈ start, number.toNat + items.length ≤ 2 ^ 64

/-- Whether a block stands inside of another behind so many layers of quotes and lists. -/
inductive Block.Holds (inner : Block) : List Layer → Block → Prop where
  | here : Holds inner [] inner
  | quote {layers : List Layer} {content : List Block} {block : Block} (member : block ∈ content)
      (inside : Holds inner layers block) : Holds inner (.quote :: layers) (.blockQuote content)
  | list {layers : List Layer} {start : Option UInt64} {items : List Block} {item : Block} {k : Nat}
      (numbered : Numbered start items) (member : items[k]? = some item)
      (inside : Holds inner layers item) :
      Holds inner (.item (markerAt start k) :: layers) (listOf start items)
  | content {layers : List Layer} {content : List Block} {block : Block} (member : block ∈ content)
      (inside : Holds inner layers block) : Holds inner layers (.listItem content)

/-- Whether the marks on the lines of a block can be taken off again. -/
structure Block.Unnests (root : Block) : Prop where
  /-- Behind the marks of a quote are the lines of its content. -/
  quote : ∀ content, root = .blockQuote content →
    root.lines.map behindQuote? = (linesOf content).map some
  /-- A list is written on the lines of its items, with their markers; of an empty last line there is only the
  line feed in front. -/
  list : ∀ start items, root = listOf start items → Numbered start items →
    ∃ groups, List.Forall₂ (fun (item : Block × Nat) group =>
          IsItem (markerAt start item.2) item.1.lines group) items.zipIdx groups ∧
      groups.flatten = root.lines ++ if items.getLast?.any Block.endsEmpty then [[]] else []
  /-- The lines of code stand below each other behind the marks of what is around them. -/
  code : ∀ layers attr text, Holds (.codeBlock attr text) layers root →
    ∃ inside, inside <:+: root.lines ∧
      inside.map (behindAll? layers) = (splitFeeds (dropFeed text.toList)).map some

-- ---------------------------------------------------------------------------
-- Lines put together
-- ---------------------------------------------------------------------------

namespace Text

/-- Lines without line ends in them that are put together are the lines of the text, and an empty last one that
has only the line feed in front. -/
theorem charLines_intercalate {lines : List (List Char)} (h : ∀ line ∈ lines, IsLiteral line) :
    lines = charLines (['\n'].intercalate lines) ++ if lines.getLast? = some [] then [[]] else [] := by
  have hlines := linesOfPieces_append_last fun line hline hreturn =>
    (h line hline).2 (List.mem_of_getLast? hreturn)
  rcases lines with _ | ⟨line, lines⟩
  · rfl
  · rw [charLines, splitFeeds_intercalate (List.cons_ne_nil _ _) fun line hline => (h line hline).1, hlines]

/-- Texts put together by line feeds. -/
theorem intercalate_flatten {groups : List (List (List Char))} (h : ∀ group ∈ groups, group ≠ [])
    (sep : List Char) : sep.intercalate (groups.map sep.intercalate) = sep.intercalate groups.flatten := by
  induction groups with
  | nil => rfl
  | cons group groups ih =>
    obtain ⟨hgroup, hgroups⟩ := List.forall_mem_cons.mp h
    rcases groups with _ | ⟨next, groups⟩
    · simp
    · have hflat : (next :: groups).flatten ≠ [] := by
        simp [hgroups next List.mem_cons_self]
      rw [List.map_cons, List.intercalate_cons_of_ne_nil (by simp), ih hgroups,
        ← intercalate_append hgroup hflat sep]
      rfl

/-- The lines of a text stand among those of texts that are put together with empty lines between them. -/
theorem charLines_infix_intercalate {pieces : List (List Char)} (h : ∀ piece ∈ pieces, '\r' ∉ piece)
    {piece : List Char} (hpiece : piece ∈ pieces) :
    charLines piece <:+: charLines (['\n', '\n'].intercalate pieces) := by
  induction pieces with
  | nil => cases hpiece
  | cons first pieces ih =>
    obtain ⟨hfirst, hrest⟩ := List.forall_mem_cons.mp h
    rcases pieces with _ | ⟨second, pieces⟩
    · rw [List.mem_singleton.mp hpiece, List.intercalate_singleton]
    · have hnone : '\r' ∉ ([] : List Char) := List.not_mem_nil
      have hempty : charLines ('\n' :: ['\n', '\n'].intercalate (second :: pieces)) =
          [] :: charLines (['\n', '\n'].intercalate (second :: pieces)) := charLines_append_feed hnone _
      have hlines : charLines (['\n', '\n'].intercalate (first :: second :: pieces)) =
          splitFeeds first ++ [] :: charLines (['\n', '\n'].intercalate (second :: pieces)) := by
        rw [List.intercalate_cons_cons, List.append_assoc, List.cons_append, charLines_append_feed hfirst,
          List.singleton_append, hempty]
      rw [hlines]
      rcases List.mem_cons.mp hpiece with rfl | hpiece
      · rw [← charLines_append_last hfirst, List.append_assoc]
        exact (List.prefix_append ..).isInfix
      · exact (ih hrest hpiece).trans ((List.suffix_cons ..).trans (List.suffix_append ..)).isInfix

end Text

/-- What a part of a list came from under a function is a part too. -/
theorem exists_infix_of_map {α β : Type} {f : α → Option β} {lines : List α} {inner part : List β}
    (h : lines.map f = inner.map some) (hpart : part <:+: inner) :
    ∃ inside, inside <:+: lines ∧ inside.map f = part.map some := by
  obtain ⟨before, behind, rfl⟩ := hpart
  rw [List.map_append, List.map_append] at h
  obtain ⟨front, rest, rfl, hfront, hrest⟩ := List.map_eq_append_iff.mp h
  obtain ⟨first, inside, rfl, -, hinside⟩ := List.map_eq_append_iff.mp hfront
  exact ⟨inside, ⟨first, rest, rfl⟩, hinside⟩

-- ---------------------------------------------------------------------------
-- Quotes
-- ---------------------------------------------------------------------------

section

variable {text : String}

theorem toList_quoteLine (line : List Char) :
    (quoteLine (String.ofList line)).toList = quotedLine line := by
  unfold quoteLine quotedLine
  cases line <;> simp

theorem behindQuote?_quotedLine (line : List Char) : behindQuote? (quotedLine line) = some line := by
  cases line <;> rfl

theorem isLiteral_charLines (h : '\r' ∉ text.toList) :
    ∀ line ∈ charLines text.toList, IsLiteral line := by
  intro line hline
  obtain ⟨hwithin, hfeed⟩ := Text.of_mem_charLines hline
  exact ⟨hfeed, fun hmem => h (hwithin.subset hmem)⟩

/-- A quote has the lines of its content, with its mark in front of each. -/
theorem charLines_quoteLines (h : '\r' ∉ text.toList) :
    charLines (quoteLines text).toList = (charLines text.toList).map quotedLine := by
  have htext : (quoteLines text).toList = ['\n'].intercalate ((charLines text.toList).map quotedLine) := by
    rw [quoteLines, Text.lines, List.map_map, joinLines, String.toList_intercalate, List.map_map]
    exact congrArg _ (List.map_congr_left fun line _ => toList_quoteLine line)
  have hquoted : ∀ line ∈ (charLines text.toList).map quotedLine, IsLiteral line := by
    intro quoted hmem
    obtain ⟨line, hline, rfl⟩ := List.mem_map.mp hmem
    have hliteral := isLiteral_charLines h line hline
    unfold quotedLine
    split
    · exact Markdown.isLiteral_nil.cons rfl
    · exact (hliteral.cons rfl).cons rfl
  have hlast : ((charLines text.toList).map quotedLine).getLast? ≠ some [] := by
    rw [List.getLast?_map]
    intro hlast
    obtain ⟨line, -, hline⟩ := Option.map_eq_some_iff.mp hlast
    cases line <;> cases hline
  have hlines := Text.charLines_intercalate hquoted
  rw [if_neg hlast, List.append_nil] at hlines
  rw [htext, ← hlines]

/-- Behind the marks of a quote are the lines of its content. -/
theorem map_behindQuote?_lines {content : List Block} (h : Unreturned (stringsIn content)) :
    (Block.blockQuote content).lines.map behindQuote? = (linesOf content).map some := by
  have hreturn : '\r' ∉ (renderBlocks content).toList := (unreturned_renderEach content h).joinBlocks
  have hlines : (Block.blockQuote content).lines = (linesOf content).map quotedLine :=
    charLines_quoteLines hreturn
  rw [hlines, List.map_map]
  exact List.map_congr_left fun line _ => behindQuote?_quotedLine line

end

-- ---------------------------------------------------------------------------
-- Items
-- ---------------------------------------------------------------------------

/-- An item is written on these lines. -/
def itemGroup (marker : List Char) : List (List Char) → List (List Char)
  | [] => [marker.dropLast]
  | line :: lines => (marker ++ line) :: lines.map (indentedLine marker.length)

theorem exists_mark (start : Option UInt64) (k : Nat) :
    ∃ mark c, markerAt start k = mark ++ [c] ++ [' '] ∧ Text.isBlank c = false := by
  cases start with
  | none => exact ⟨[], '-', rfl, by decide⟩
  | some number => exact ⟨(toString (number.toNat + k)).toList, '.', by simp [markerAt], by decide⟩

theorem itemGroup_ne_nil (marker : List Char) (lines : List (List Char)) : itemGroup marker lines ≠ [] := by
  cases lines <;> exact List.cons_ne_nil _ _

theorem behindColumns?_indentedLine (width : Nat) (line : List Char) :
    behindColumns? width (indentedLine width line) = some line := by
  cases line with
  | nil => rfl
  | cons c line => simp [behindColumns?, indentedLine]

theorem isItem_itemGroup (start : Option UInt64) (k : Nat) (lines : List (List Char)) :
    IsItem (markerAt start k) lines (itemGroup (markerAt start k) lines) := by
  cases lines with
  | nil =>
    obtain ⟨mark, c, hmarker, -⟩ := exists_mark start k
    rw [hmarker, itemGroup, List.dropLast_concat]
    exact .bare
  | cons line lines =>
    refine .marked ?_
    rw [List.map_map]
    exact List.map_congr_left fun other _ => behindColumns?_indentedLine _ other

theorem isLiteral_markerAt (start : Option UInt64) (k : Nat) : IsLiteral (markerAt start k) := by
  cases start with
  | none => exact (Markdown.isLiteral_nil.cons rfl).cons rfl
  | some number =>
    refine Markdown.IsLiteral.append ?_ ((Markdown.isLiteral_nil.cons rfl).cons rfl)
    exact Markdown.isLiteral_of_isLineEnd fun c hc =>
      (Markdown.not_isDigit_facts (Markdown.isDigit_of_mem_toString hc)).2.1

theorem isLiteral_itemGroup {marker : List Char} (hmarker : IsLiteral marker) {lines : List (List Char)}
    (h : ∀ line ∈ lines, IsLiteral line) : ∀ line ∈ itemGroup marker lines, IsLiteral line := by
  intro written hwritten
  rcases lines with _ | ⟨line, lines⟩
  · rw [List.mem_singleton.mp hwritten]
    exact ⟨fun hmem => hmarker.1 (List.mem_of_mem_dropLast hmem),
      fun hmem => hmarker.2 (List.mem_of_mem_dropLast hmem)⟩
  · obtain ⟨hline, hlines⟩ := List.forall_mem_cons.mp h
    rcases List.mem_cons.mp hwritten with rfl | hwritten
    · exact hmarker.append hline
    · obtain ⟨other, hother, rfl⟩ := List.mem_map.mp hwritten
      unfold indentedLine
      split
      · exact Markdown.isLiteral_nil
      · exact (Markdown.isLiteral_replicate rfl _).append (hlines other hother)

/-- Below its marker an item has an empty line for each of its own. -/
theorem getLast?_itemGroup {marker : List Char} (hmarker : 2 ≤ marker.length) (lines : List (List Char)) :
    (itemGroup marker lines).getLast? = some [] ↔ 2 ≤ lines.length ∧ lines.getLast? = some [] := by
  rcases lines with _ | ⟨line, lines⟩
  · have hmark : marker.dropLast ≠ [] := by
      rw [← List.length_pos_iff, List.length_dropLast]
      omega
    simp [itemGroup, hmark]
  · rcases List.eq_nil_or_concat lines with rfl | ⟨front, last, rfl⟩
    · have hmark : marker ≠ [] := by
        rintro rfl
        cases hmarker
      simp [itemGroup, hmark]
    · have hindented : indentedLine marker.length last = [] ↔ last = [] := by
        cases last <;> simp [indentedLine]
      rw [itemGroup, List.concat_eq_append, List.map_append, List.map_singleton, ← List.cons_append,
        ← List.cons_append, List.getLast?_concat, List.getLast?_concat, Option.some_inj, Option.some_inj,
        hindented]
      simp

theorem toList_renderItem_eq {marker : String} {start : Option UInt64} {k : Nat}
    (hmarker : marker.toList = markerAt start k) (text : String) :
    (renderItem marker text).toList =
      ['\n'].intercalate (itemGroup (markerAt start k) (charLines text.toList)) := by
  have hline : ∀ line : List Char, (if (String.ofList line).isEmpty then ""
      else Text.repeated marker.length ' ' ++ String.ofList line).toList =
        indentedLine (markerAt start k).length line := by
    intro line
    rw [← hmarker, String.length_toList]
    unfold indentedLine
    cases line <;> simp [Text.repeated]
  rw [renderItem, Text.lines]
  rcases charLines text.toList with _ | ⟨line, lines⟩
  · obtain ⟨mark, c, hmark, hc⟩ := exists_mark start k
    rw [hmark] at hmarker ⊢
    simp only [List.map_nil, itemGroup, List.intercalate_singleton, String.toList_ofList, hmarker]
    rw [List.dropLast_concat,
      Text.dropEndWhile_append _ (by simpa using hc) (List.forall_mem_singleton.mpr rfl)]
  · simp only [List.map_cons, itemGroup, joinLines, String.toList_intercalate, String.toList_append,
      String.toList_ofList, List.map_map, hmarker]
    exact congrArg (fun below => ['\n'].intercalate ((markerAt start k ++ line) :: below))
      (List.map_congr_left fun other _ => hline other)

-- ---------------------------------------------------------------------------
-- Lists
-- ---------------------------------------------------------------------------

variable {start : Option UInt64}

theorem unreturned_listOf_iff {items : List Block} :
    Unreturned (listOf start items).strings ↔ Unreturned (stringsIn items) := by
  cases start <;> exact Iff.rfl

/-- The lines that the items of a list are written on. -/
def groupsOf (start : Option UInt64) (items : List Block) : List (List (List Char)) :=
  items.zipIdx.map fun (item, k) => itemGroup (markerAt start k) item.lines

theorem toList_markerString_zero (start : Option UInt64) : (markerString start).toList = markerAt start 0 := by
  cases start with
  | none => rfl
  | some number => simp [markerString, orderedMarker, markerAt]

/-- Behind the first item a list goes on like one with the next number. -/
theorem groupsOf_cons {item : Block} {items : List Block} (h : Numbered start (item :: items)) :
    groupsOf start (item :: items) =
        itemGroup (markerAt start 0) item.lines :: groupsOf (start.map (· + 1)) items ∧
      Numbered (start.map (· + 1)) items := by
  -- Numbers wrap around, but not before the last item.
  have hnext : ∀ number ∈ start, items ≠ [] → (number + 1).toNat = number.toNat + 1 := by
    intro number hnumber hitems
    have hfits := h number hnumber
    have hpos := List.length_pos_iff.mpr hitems
    rw [List.length_cons] at hfits
    rw [UInt64.toNat_add, UInt64.toNat_one]
    omega
  have hmarker : ∀ k, items ≠ [] → markerAt start (k + 1) = markerAt (start.map (· + 1)) k := by
    intro k hitems
    cases start with
    | none => rfl
    | some number =>
      have hvalue := hnext number rfl hitems
      simp only [markerAt, Option.map_some, hvalue]
      rw [Nat.add_assoc, Nat.add_comm 1 k]
  refine ⟨?_, fun number hnumber => ?_⟩
  · rw [groupsOf, List.zipIdx_cons', List.map_cons, List.map_map]
    refine congrArg (_ :: ·) (List.map_congr_left fun entry hentry => ?_)
    have hitems : items ≠ [] := by
      rintro rfl
      cases hentry
    simp [hmarker _ hitems]
  · obtain ⟨first, hfirst, rfl⟩ := Option.map_eq_some_iff.mp hnumber
    rcases eq_or_ne items [] with rfl | hitems
    · exact (UInt64.toNat_lt _).le
    · have hfits := h first hfirst
      have hvalue := hnext first hfirst hitems
      rw [List.length_cons] at hfits
      omega

theorem map_toList_renderList {items : List Block} (h : Numbered start items) :
    (renderList start (renderEach items)).map String.toList =
      (groupsOf start items).map ['\n'].intercalate := by
  induction items generalizing start with
  | nil => cases start <;> rfl
  | cons item items ih =>
    obtain ⟨hgroups, hrest⟩ := groupsOf_cons h
    have hitem := toList_renderItem_eq (toList_markerString_zero start) item.render
    rw [renderEach, renderList_cons, List.map_cons, hitem, ih hrest, hgroups, List.map_cons]
    rfl

theorem isItem_groupsOf (start : Option UInt64) (items : List Block) :
    List.Forall₂ (fun (item : Block × Nat) group => IsItem (markerAt start item.2) item.1.lines group)
      items.zipIdx (groupsOf start items) := by
  rw [groupsOf, List.forall₂_map_right_iff, List.forall₂_same]
  exact fun item _ => isItem_itemGroup start item.2 item.1.lines

theorem two_le_length_markerAt (start : Option UInt64) (k : Nat) : 2 ≤ (markerAt start k).length := by
  obtain ⟨mark, c, hmarker, -⟩ := exists_mark start k
  simp [hmarker]

/-- The last line of a list is empty exactly if its last item has an empty line below its first. -/
theorem getLast?_groupsOf (start : Option UInt64) (items : List Block) :
    (groupsOf start items).flatten.getLast? = some [] ↔ items.getLast?.any Block.endsEmpty = true := by
  rcases List.eq_nil_or_concat items with rfl | ⟨front, last, rfl⟩
  · simp [groupsOf]
  · have hlast := getLast?_itemGroup (two_le_length_markerAt start front.length) last.lines
    have hne := itemGroup_ne_nil (markerAt start front.length) last.lines
    rw [List.concat_eq_append, List.getLast?_concat, groupsOf, List.zipIdx_append, List.map_append,
      List.flatten_append]
    simp only [List.zipIdx_singleton, Nat.zero_add, List.map_singleton, List.flatten_singleton]
    rw [List.getLast?_append_of_ne_nil _ hne, hlast]
    simp [Block.endsEmpty]

theorem isLiteral_groupsOf (start : Option UInt64) {items : List Block}
    (h : ∀ item ∈ items, '\r' ∉ item.render.toList) :
    ∀ line ∈ (groupsOf start items).flatten, IsLiteral line := by
  intro line hline
  obtain ⟨group, hgroup, hmem⟩ := List.mem_flatten.mp hline
  obtain ⟨⟨item, k⟩, hitem, rfl⟩ := List.mem_map.mp hgroup
  exact isLiteral_itemGroup (isLiteral_markerAt start k)
    (isLiteral_charLines (h item (List.fst_mem_of_mem_zipIdx hitem))) line hmem

/-- A list has the lines of its items, but for an empty last one. -/
theorem flatten_groupsOf {items : List Block} (hnumbered : Numbered start items)
    (h : ∀ item ∈ items, '\r' ∉ item.render.toList) :
    (groupsOf start items).flatten = (listOf start items).lines ++
      if items.getLast?.any Block.endsEmpty then [[]] else [] := by
  have htext : (listOf start items).render.toList = ['\n'].intercalate (groupsOf start items).flatten := by
    have hgroups : ∀ group ∈ groupsOf start items, group ≠ [] := by
      intro group hgroup
      obtain ⟨item, -, rfl⟩ := List.mem_map.mp hgroup
      exact itemGroup_ne_nil _ _
    rw [render_listOf, joinLines, String.toList_intercalate, map_toList_renderList hnumbered]
    exact Text.intercalate_flatten hgroups ['\n']
  have hlines := Text.charLines_intercalate (isLiteral_groupsOf start h)
  rwa [← htext, if_congr (getLast?_groupsOf start items) rfl rfl] at hlines

-- ---------------------------------------------------------------------------
-- Code
-- ---------------------------------------------------------------------------

/-- The text of a code block is on lines of its own between the fences. -/
theorem lines_codeBlock {attr : Attr} {text : String} (h : Unreturned (Block.codeBlock attr text).strings) :
    ∃ opening fence, fence ≠ [] ∧ (Block.codeBlock attr text).lines =
      splitFeeds opening ++ (splitFeeds (dropFeed text.toList) ++ [fence]) := by
  obtain ⟨htext, hattr⟩ := Unreturned.cons_iff.mp h
  have hinfo := Attr.unreturned_showNonempty hattr
  have hbody : '\r' ∉ dropFeed text.toList := by
    rw [dropFeed]
    split
    · exact fun hmem => htext (List.mem_of_mem_dropLast hmem)
    · exact htext
  let fence := List.replicate (max (longestTicks text + 1) 3) '\x60'
  have hne : fence ≠ [] := by
    have hthree := Nat.le_max_right (longestTicks text + 1) 3
    exact mt (List.replicate_eq_nil_iff _).mp (by omega)
  have hfeed : '\n' ∉ fence := fun hmem => by cases List.eq_of_mem_replicate hmem
  have hreturn : '\r' ∉ fence ++ attr.showNonempty.toList := by
    refine fun hmem => (List.mem_append.mp hmem).elim (fun hmem => ?_) hinfo
    cases List.eq_of_mem_replicate hmem
  have hwritten : (Block.codeBlock attr text).render.toList =
      (fence ++ attr.showNonempty.toList) ++ '\n' :: (dropFeed text.toList ++ '\n' :: fence) := by
    rw [Block.render, renderCodeBlock, dropFeed]
    split <;> simp [Text.repeated, fence]
  -- Behind the last fence there is no line feed, and it is not empty, so it is a line.
  have hclosing : charLines fence = [fence] := by
    have hlines := Text.charLines_append_last (fun hmem => hreturn (List.mem_append_left _ hmem))
    rw [Text.splitFeeds_of_notMem hfeed] at hlines
    simpa [hne] using hlines
  refine ⟨fence ++ attr.showNonempty.toList, fence, hne, ?_⟩
  rw [Block.lines, hwritten, Text.charLines_append_feed hreturn, Text.charLines_append_feed hbody, hclosing]

theorem behindAll?_nil {layers : List Layer} {line : List Char} (h : behindAll? layers [] = some line) :
    line = [] := by
  induction layers with
  | nil => exact (Option.some.inj h).symm
  | cons layer layers ih =>
    obtain ⟨next, hnext, hrest⟩ := Option.bind_eq_some_iff.mp h
    have hnone : next = [] := by
      cases layer with
      | quote => cases hnext
      | item marker =>
        by_cases hmarker : marker <+: [] <;> simpa [Layer.behind?, behindColumns?, hmarker] using hnext.symm
    rw [hnone] at hrest
    exact ih hrest

/-- The lines of an item have their own lines behind the marker and its columns. -/
theorem map_behind?_itemGroup (start : Option UInt64) (k : Nat) {lines : List (List Char)} (h : lines ≠ []) :
    (itemGroup (markerAt start k) lines).map (Layer.item (markerAt start k)).behind? = lines.map some := by
  obtain ⟨line, lines, rfl⟩ := List.exists_cons_of_ne_nil h
  have hfirst : (Layer.item (markerAt start k)).behind? (markerAt start k ++ line) = some line := by
    simp [Layer.behind?]
  have hbelow : ∀ other ∈ lines, (Layer.item (markerAt start k)).behind?
      (indentedLine (markerAt start k).length other) = some other := by
    intro other _
    rw [Layer.behind?]
    split
    · cases other <;> simp [indentedLine]
    · exact behindColumns?_indentedLine _ other
  rw [itemGroup, List.map_cons, List.map_map, hfirst, List.map_cons]
  exact congrArg _ (List.map_congr_left hbelow)

/-- A part that does not end in an empty line is not touched where the last line is left out. -/
theorem infix_of_infix_append_empty {inside lines : List (List Char)} {left : Bool}
    (h : inside <:+: lines ++ if left then [[]] else []) (hlast : ∃ last ∈ inside.getLast?, last ≠ []) :
    inside <:+: lines := by
  obtain ⟨last, hlast, hne⟩ := hlast
  cases left with
  | false => simpa using h
  | true =>
    rw [if_pos rfl, List.infix_concat_iff] at h
    refine h.resolve_left fun hsuffix => hne ?_
    obtain ⟨front, hfront⟩ := hsuffix
    have hends := congrArg List.getLast? hfront
    rw [List.getLast?_concat, List.getLast?_append, hlast] at hends
    simpa using hends

/-- What does not end in an empty line behind marks does not end in one with them. -/
theorem exists_getLast?_of_map {layers : List Layer} {lines inner : List (List Char)}
    (h : lines.map (behindAll? layers) = inner.map some) (hlast : ∃ last ∈ inner.getLast?, last ≠ []) :
    ∃ last ∈ lines.getLast?, last ≠ [] := by
  obtain ⟨last, hlast, hne⟩ := hlast
  have hends := congrArg List.getLast? h
  rw [List.getLast?_map, List.getLast?_map, hlast] at hends
  obtain ⟨line, hline, hbehind⟩ := Option.map_eq_some_iff.mp hends
  refine ⟨line, hline, ?_⟩
  rintro rfl
  exact hne (behindAll?_nil hbehind)

/-- Behind the marks of one more layer. -/
theorem map_behindAll?_cons {layer : Layer} {layers : List Layer} {lines inner : List (List Char)}
    (h : lines.map layer.behind? = inner.map some) :
    lines.map (behindAll? (layer :: layers)) = inner.map (behindAll? layers) := by
  have hbind := congrArg (List.map fun line? => Option.bind line? (behindAll? layers)) h
  rwa [List.map_map, List.map_map] at hbind

/-- Blocks that are put together keep their lines below each other. -/
theorem Block.lines_infix_linesOf {content : List Block} {block : Block} (hmember : block ∈ content)
    (h : Unreturned (stringsIn content)) : block.lines <:+: linesOf content := by
  rcases eq_or_ne block.render "" with hempty | hne
  · rw [Block.lines, hempty]
    exact List.nil_infix
  · have hmem : block.render.toList ∈
        ((renderEach content).filter fun text => !text.isEmpty).map String.toList := by
      rw [renderEach_eq_map]
      exact List.mem_map_of_mem (List.mem_filter.mpr ⟨List.mem_map_of_mem hmember, by simpa using hne⟩)
    have hreturns : ∀ text ∈ ((renderEach content).filter fun text => !text.isEmpty).map String.toList,
        '\r' ∉ text := by
      intro chars hchars
      obtain ⟨text, htext, rfl⟩ := List.mem_map.mp hchars
      exact unreturned_renderEach content h text (List.mem_filter.mp htext).1
    rw [Block.lines, linesOf, renderBlocks, joinBlocks, String.toList_intercalate]
    exact Text.charLines_infix_intercalate hreturns hmem

namespace Block.Holds

variable {inner root : Block} {layers : List Layer}

/-- The lines of a block that does not end in an empty line stand below each other behind the marks of what is
around it. -/
theorem lines (hholds : Holds inner layers root) (hroot : Unreturned root.strings)
    (hlast : ∃ last ∈ inner.lines.getLast?, last ≠ []) :
    ∃ inside, inside <:+: root.lines ∧ inside.map (behindAll? layers) = inner.lines.map some := by
  induction hholds with
  | here => exact ⟨inner.lines, List.infix_rfl, rfl⟩
  | @quote layers content block member _ ih =>
    obtain ⟨inside, hinside, hlines⟩ := ih (Unreturned.of_mem member hroot)
    have hquote : (Block.blockQuote content).lines.map Layer.quote.behind? = (linesOf content).map some :=
      map_behindQuote?_lines hroot
    obtain ⟨quoted, hquoted, hbehind⟩ := exists_infix_of_map hquote
      (hinside.trans (Block.lines_infix_linesOf member hroot))
    exact ⟨quoted, hquoted, (map_behindAll?_cons hbehind).trans hlines⟩
  | @list layers start items item k numbered member _ ih =>
    have hitems := unreturned_listOf_iff.mp hroot
    have hitem := List.mem_of_getElem? member
    obtain ⟨inside, hinside, hlines⟩ := ih (Unreturned.of_mem hitem hitems)
    have hne : item.lines ≠ [] := by
      intro hnone
      rw [hnone, List.infix_nil] at hinside
      rw [hinside, List.map_nil, eq_comm, List.map_eq_nil_iff] at hlines
      simp [hlines] at hlast
    obtain ⟨marked, hmarked, hbehind⟩ := exists_infix_of_map (map_behind?_itemGroup start k hne) hinside
    have hall := (map_behindAll?_cons hbehind).trans hlines
    have hgroup : itemGroup (markerAt start k) item.lines ∈ groupsOf start items :=
      List.mem_map.mpr ⟨(item, k), List.mk_mem_zipIdx_iff_getElem?.mpr member, rfl⟩
    have hflat := flatten_groupsOf numbered fun other hother =>
      Block.unreturned_render other (Unreturned.of_mem hother hitems)
    have hwithin := hmarked.trans (List.infix_of_mem_flatten hgroup)
    rw [hflat] at hwithin
    refine ⟨marked, infix_of_infix_append_empty hwithin (exists_getLast?_of_map hall hlast), hall⟩
  | content member _ ih =>
    obtain ⟨inside, hinside, hlines⟩ := ih (Unreturned.of_mem member hroot)
    exact ⟨inside, hinside.trans (Block.lines_infix_linesOf member hroot), hlines⟩

theorem unreturned (hholds : Holds inner layers root) (hroot : Unreturned root.strings) :
    Unreturned inner.strings := by
  induction hholds with
  | here => exact hroot
  | quote member _ ih | content member _ ih => exact ih (Unreturned.of_mem member hroot)
  | @list _ start items _ _ _ member _ ih =>
    exact ih (Unreturned.of_mem (List.mem_of_getElem? member) (unreturned_listOf_iff.mp hroot))

end Block.Holds

-- ---------------------------------------------------------------------------
-- Nesting
-- ---------------------------------------------------------------------------

/-- **Nested lines.** In a tree without carriage returns the marks of quotes and lists can be taken off the lines
again, all but an empty last line of a list. So code keeps its lines at any depth. -/
theorem Block.unnests {root : Block} (h : Unreturned root.strings) : root.Unnests where
  quote := by
    rintro content rfl
    exact map_behindQuote?_lines h
  list := by
    rintro start items rfl hnumbered
    have hitems := unreturned_listOf_iff.mp h
    exact ⟨groupsOf start items, isItem_groupsOf start items, flatten_groupsOf hnumbered fun item hitem =>
      Block.unreturned_render item (Unreturned.of_mem hitem hitems)⟩
  code := by
    intro layers attr text hholds
    obtain ⟨opening, fence, hfence, hcode⟩ := lines_codeBlock (hholds.unreturned h)
    have hlast : ∃ last ∈ (Block.codeBlock attr text).lines.getLast?, last ≠ [] := by
      rw [hcode, ← List.append_assoc, List.getLast?_concat]
      exact ⟨fence, rfl, hfence⟩
    obtain ⟨inside, hinside, hlines⟩ := hholds.lines h hlast
    have htext : splitFeeds (dropFeed text.toList) <:+: (Block.codeBlock attr text).lines :=
      hcode ▸ ⟨splitFeeds opening, [fence], by simp⟩
    obtain ⟨part, hpart, hmap⟩ := exists_infix_of_map hlines htext
    exact ⟨part, hpart.trans hinside, hmap⟩

/-- Code with an empty line in the second item of a list, where the markers become wider, in a quote. -/
theorem Block.unnests_numbered :
    let code : Block := .codeBlock (.ofClasses ["python"]) "if x:\n\n  y\n"
    let items : List Block := [.listItem [.paragraph [.text "a"]], .listItem [code]]
    let root : Block := .blockQuote [listOf (some 9) items]
    let layers := [.quote, .item ['1', '0', '.', ' ']]
    Unreturned root.strings ∧ Numbered (some 9) items ∧ Holds code layers root ∧
      root.lines = ["> 9. a", "> 10. \x60\x60\x60\x7b.python\x7d", ">     if x:", ">", ">       y",
        ">     \x60\x60\x60"].map String.toList ∧
      root.lines.map behindQuote? = (linesOf [listOf (some 9) items]).map some ∧
      (∃ groups, List.Forall₂ (fun (item : Block × Nat) group =>
          IsItem (markerAt (some 9) item.2) item.1.lines group) items.zipIdx groups ∧
        groups.flatten = (listOf (some 9) items).lines) ∧
      ∃ inside, inside <:+: root.lines ∧
        inside.map (behindAll? layers) = ["if x:", "", "  y"].map fun line => some line.toList := by
  intro code items root layers
  have hstrings : Unreturned root.strings := by
    have hlist : root.strings = ["a", "if x:\n\n  y\n", "", "python"] := by cbv
    rw [Unreturned, hlist]
    decide
  have hnumbered : Numbered (some 9) items := by
    intro number hnumber
    cases hnumber
    decide
  have hholds : Holds code layers root := .quote (List.mem_singleton_self _)
    (.list (k := 1) hnumbered rfl (.content (List.mem_singleton_self _) .here))
  have hroot := Block.unnests hstrings
  have hinner : Unreturned (listOf (some 9) items).strings := fun text htext =>
    hstrings text (List.mem_append_left _ htext)
  have hlist := Block.unnests hinner
  obtain ⟨groups, hgroups, hflat⟩ := hlist.list (some 9) items rfl hnumbered
  have hends : items.getLast?.any Block.endsEmpty = false := by cbv
  rw [hends, if_neg Bool.false_ne_true, List.append_nil] at hflat
  obtain ⟨inside, hinside, hmap⟩ := hroot.code layers _ _ hholds
  have htext : splitFeeds (dropFeed "if x:\n\n  y\n".toList) = ["if x:".toList, [], "  y".toList] := by cbv
  rw [htext] at hmap
  exact ⟨hstrings, hnumbered, hholds, by cbv, hroot.quote _ rfl, ⟨groups, hgroups, hflat⟩,
    inside, hinside, hmap⟩

/-- A paragraph of a list that ends in two breaks: its empty last line has none in the list. -/
theorem Block.lines_list_break :
    let item : Block := .listItem [.paragraph [.text "a", .softBreak, .softBreak]]
    Unreturned (listOf none [item]).strings ∧ Numbered none [item] ∧
      item.lines = [['a'], []] ∧ (listOf none [item]).lines = [['-', ' ', 'a']] ∧
      ¬ ∃ groups, List.Forall₂ (fun (item : Block × Nat) group =>
          IsItem (markerAt none item.2) item.1.lines group) [item].zipIdx groups ∧
        groups.flatten = (listOf none [item]).lines := by
  intro item
  have hitem : item.lines = [['a'], []] := by cbv
  have hlist : (listOf none [item]).lines = [['-', ' ', 'a']] := by cbv
  refine ⟨?_, fun number hnone => (by cases hnone), hitem, hlist, ?_⟩
  · have hstrings : (listOf none [item]).strings = ["a"] := by cbv
    rw [Unreturned, hstrings]
    decide
  · rintro ⟨groups, hgroups, hflat⟩
    rw [hlist] at hflat
    obtain ⟨group, rfl⟩ : ∃ group, groups = [group] := List.length_eq_one_iff.mp hgroups.length_eq.symm
    have hgroup : IsItem (markerAt none 0) item.lines group := by simpa using hgroups
    rw [hitem] at hgroup
    have hlength := hgroup.length_eq
    have hlines := congrArg List.length hflat
    simp [hlength] at hlines

end Literate
