import Literate.Document.Render
import Literate.Markdown.Line
import Literate.Proofs.Text.Lines

/-!
# Tables as text

A table is written on one line for the head, one that sets the columns, and one for each row. By the rule for
tables the cells of a row are what stands between the bars that no backslash stands in front of
(`cellsByRule`), so what is in a cell must have neither a line feed nor such a bar (`StaysOnLine`). The
renderer knows inlines, not cells, and writes both as they are. A table whose cells were read from a source
can hold bars, since a backslash in front of one is taken off there.

How many lines and how many cells come out is counted: the pieces of a text that is put together are as many
as the pieces of its parts (`length_splitFeeds_intercalate`, `length_splitBars_intercalate`), and a part that
stays whole has one.

Main results:

* `Table.keepsShape_iff`: a table keeps its shape exactly if no row is empty and every cell stays on its line.
* `mem_renderInlines_iff`: a bar or a line feed in a cell is from one of its texts or a break.
* `Table.keepsShape`: both.
-/

namespace Literate

open Text (joinLines splitFeeds)

-- ---------------------------------------------------------------------------
-- Counting pieces
-- ---------------------------------------------------------------------------

/-- Numbers that are at least one add up to how many they are only if each of them is one. -/
theorem sum_map_eq_length_iff {α : Type} {f : α → Nat} (h : ∀ x, 1 ≤ f x) (xs : List α) :
    (xs.map f).sum = xs.length ↔ ∀ x ∈ xs, f x = 1 := by
  induction xs with
  | nil => simp
  | cons x xs ih =>
    have hx := h x
    have hxs := List.length_le_sum_of_one_le (xs.map f) (by simpa using fun y _ => h y)
    rw [List.length_map] at hxs
    rw [List.forall_mem_cons, ← ih, List.map_cons, List.sum_cons, List.length_cons]
    omega

namespace Text

theorem length_splitFeeds_pos (cs : List Char) : 1 ≤ (splitFeeds cs).length :=
  List.length_pos_iff.mpr (splitFeeds_ne_nil cs)

theorem length_splitFeeds_eq_one_iff {cs : List Char} : (splitFeeds cs).length = 1 ↔ '\n' ∉ cs := by
  constructor
  · intro hone hmem
    obtain ⟨before, after, rfl⟩ := List.append_of_mem hmem
    have hbefore := length_splitFeeds_pos before
    have hafter := length_splitFeeds_pos after
    rw [splitFeeds_append_feed, List.length_append] at hone
    omega
  · intro hnot
    rw [splitFeeds_of_notMem hnot]
    rfl

theorem length_splitFeeds_intercalate {parts : List (List Char)} (h : parts ≠ []) :
    (splitFeeds (['\n'].intercalate parts)).length =
      (parts.map fun part => (splitFeeds part).length).sum := by
  induction parts with
  | nil => exact absurd rfl h
  | cons part parts ih =>
    cases parts with
    | nil => simp
    | cons next parts =>
      rw [List.intercalate_cons_cons, List.append_assoc, List.singleton_append, splitFeeds_append_feed,
        List.length_append, ih (List.cons_ne_nil next parts)]
      simp

/-- Only a text of whole lines has an empty last piece. -/
theorem getLast?_splitFeeds_ne_nil {cs last : List Char} (h : ¬ IsWhole cs)
    (hlast : last ∈ (splitFeeds cs).getLast?) : last ≠ [] := by
  rintro rfl
  obtain ⟨init, hinit⟩ := List.getLast?_eq_some_iff.mp (Option.mem_def.mp hlast)
  have hcs := intercalate_splitFeeds cs
  rw [hinit] at hcs
  rcases init with _ | ⟨first, init⟩
  · exact h (.inl hcs.symm)
  · rw [intercalate_append (List.cons_ne_nil first init) (by simp), List.intercalate_singleton,
      List.append_nil] at hcs
    exact h (isWhole_iff.mpr (.inr ⟨_, hcs.symm⟩))

theorem length_linesOfPieces {pieces : List (List Char)} (h : ∀ last ∈ pieces.getLast?, last ≠ []) :
    (linesOfPieces pieces).length = pieces.length := by
  fun_induction linesOfPieces pieces with
  | case1 => rfl
  | case2 last hempty => exact absurd (List.isEmpty_iff.mp hempty) (h last rfl)
  | case3 last hne => rfl
  | case4 piece pieces hmore ih =>
    obtain ⟨next, rest, rfl⟩ := List.exists_cons_of_ne_nil hmore
    rw [List.length_cons, List.length_cons, ih (by simpa using h)]

end Text

-- ---------------------------------------------------------------------------
-- The rule for rows
-- ---------------------------------------------------------------------------

namespace Markdown

/-- The cells of a row by the rule for tables: the pieces between the bars that no backslash stands in front
of. A bar at either end opens the first cell or closes the last. -/
def cellsByRule (line : List Char) : List (List Char) :=
  let pieces := splitBars false line
  let opened := if pieces.head? = some [] then pieces.tail else pieces
  if opened.getLast? = some [] then opened.dropLast else opened

/-- Whether a backslash stands in front of every bar. -/
def BarsEscaped (cs : List Char) : Prop :=
  ∀ before after, cs = before ++ '|' :: after → before.getLast? = some '\\'

theorem splitBars_cons_bar (cs : List Char) : splitBars false ('|' :: cs) = [] :: splitBars false cs :=
  rfl

theorem exists_splitBars_cons {escaped : Bool} {c : Char} (h : ¬ (c = '|' ∧ escaped = false))
    (cs : List Char) : ∃ piece pieces, splitBars (c = '\\') cs = piece :: pieces ∧
      splitBars escaped (c :: cs) = (c :: piece) :: pieces := by
  have hbar : (c = '|' && !escaped) = false := by
    cases escaped with
    | true => simp
    | false => simpa using h
  cases hpieces : splitBars (c = '\\') cs with
  | nil =>
    cases cs with
    | nil => cases hpieces
    | cons d cs =>
      unfold splitBars at hpieces
      split at hpieces
      · cases hpieces
      · split at hpieces <;> cases hpieces
  | cons piece pieces => exact ⟨piece, pieces, rfl, by simp [splitBars, hbar, hpieces]⟩

theorem length_splitBars_pos (escaped : Bool) (cs : List Char) : 1 ≤ (splitBars escaped cs).length := by
  cases cs with
  | nil => exact Nat.le_refl 1
  | cons c cs =>
    by_cases h : c = '|' ∧ escaped = false
    · obtain ⟨rfl, rfl⟩ := h
      exact Nat.succ_le_succ (Nat.zero_le _)
    · obtain ⟨piece, pieces, -, hcons⟩ := exists_splitBars_cons h cs
      rw [hcons]
      exact Nat.succ_le_succ (Nat.zero_le _)

theorem length_splitBars_cons_of_not {escaped : Bool} {c : Char} (h : ¬ (c = '|' ∧ escaped = false))
    (cs : List Char) :
    (splitBars escaped (c :: cs)).length = (splitBars (c = '\\') cs).length := by
  obtain ⟨piece, pieces, hrest, hcons⟩ := exists_splitBars_cons h cs
  rw [hrest, hcons, List.length_cons, List.length_cons]

/-- A text is left whole if each of its bars is escaped, the first by what stands before the text. -/
theorem length_splitBars_eq_one_iff (escaped : Bool) (cs : List Char) :
    (splitBars escaped cs).length = 1 ↔ ∀ before after, cs = before ++ '|' :: after →
      before.getLast?.elim escaped (fun c => c = '\\') = true := by
  induction cs generalizing escaped with
  | nil => simp [splitBars]
  | cons c cs ih =>
    -- Whether a bar is escaped is told by the character before it, so the induction is over both.
    by_cases h : c = '|' ∧ escaped = false
    · obtain ⟨rfl, rfl⟩ := h
      have hpos := length_splitBars_pos false cs
      rw [splitBars_cons_bar, List.length_cons]
      refine iff_of_false (by omega) fun hall => ?_
      cases hall [] cs rfl
    · rw [length_splitBars_cons_of_not h, ih]
      constructor
      · intro hall before after heq
        cases before with
        | nil =>
          obtain rfl : c = '|' := (List.cons.inj heq).1
          simpa using h
        | cons d before =>
          obtain ⟨rfl, hcs⟩ := List.cons.inj heq
          have hbefore := hall before after hcs
          rw [List.getLast?_cons]
          cases hlast : before.getLast? <;> simpa [hlast] using hbefore
      · intro hall before after heq
        have hbefore := hall (c :: before) after (by rw [heq, List.cons_append])
        rw [List.getLast?_cons] at hbefore
        cases hlast : before.getLast? <;> simpa [hlast] using hbefore

theorem length_splitBars_false_eq_one_iff {cs : List Char} :
    (splitBars false cs).length = 1 ↔ BarsEscaped cs := by
  rw [length_splitBars_eq_one_iff]
  refine forall_congr' fun before => forall_congr' fun after => imp_congr_right fun _ => ?_
  cases before.getLast? <;> simp

/-- A bar behind a space ends a piece. -/
theorem splitBars_append_bar (escaped : Bool) (cs ds : List Char) :
    splitBars escaped (cs ++ ' ' :: '|' :: ds) =
      splitBars escaped (cs ++ [' ']) ++ splitBars false ds := by
  induction cs generalizing escaped with
  | nil => rfl
  | cons c cs ih =>
    by_cases h : c = '|' ∧ escaped = false
    · obtain ⟨rfl, rfl⟩ := h
      rw [List.cons_append, splitBars_cons_bar, ih, List.cons_append, splitBars_cons_bar, List.cons_append]
    · obtain ⟨piece, pieces, hrest, hcons⟩ := exists_splitBars_cons h (cs ++ ' ' :: '|' :: ds)
      obtain ⟨piece', pieces', hrest', hcons'⟩ := exists_splitBars_cons h (cs ++ [' '])
      rw [ih, hrest', List.cons_append] at hrest
      obtain ⟨rfl, rfl⟩ := List.cons.inj hrest
      rw [List.cons_append, hcons, List.cons_append, hcons', List.cons_append]

theorem length_splitBars_append_space (escaped : Bool) (cs : List Char) :
    (splitBars escaped (cs ++ [' '])).length = (splitBars escaped cs).length := by
  induction cs generalizing escaped with
  | nil => rfl
  | cons c cs ih =>
    by_cases h : c = '|' ∧ escaped = false
    · obtain ⟨rfl, rfl⟩ := h
      rw [List.cons_append, splitBars_cons_bar, splitBars_cons_bar, List.length_cons, List.length_cons, ih]
    · rw [List.cons_append, length_splitBars_cons_of_not h, length_splitBars_cons_of_not h, ih]

theorem length_splitBars_space_cons (cs : List Char) :
    (splitBars false (' ' :: cs)).length = (splitBars false cs).length :=
  length_splitBars_cons_of_not (by simp) cs

theorem length_splitBars_intercalate {parts : List (List Char)} (h : parts ≠ []) :
    (splitBars false ([' ', '|', ' '].intercalate parts)).length =
      (parts.map fun part => (splitBars false part).length).sum := by
  induction parts with
  | nil => exact absurd rfl h
  | cons part parts ih =>
    cases parts with
    | nil => simp
    | cons next parts =>
      rw [List.intercalate_cons_cons, List.append_assoc, List.cons_append, List.cons_append,
        List.singleton_append, splitBars_append_bar, List.length_append, length_splitBars_append_space,
        length_splitBars_space_cons, ih (List.cons_ne_nil next parts)]
      simp

/-- The bars at the ends of a row, with a space inside each of them, are none of its cells. -/
theorem cellsByRule_row (cs : List Char) :
    cellsByRule ('|' :: ' ' :: (cs ++ [' ', '|'])) = splitBars false (' ' :: (cs ++ [' '])) := by
  have hpieces : splitBars false ('|' :: ' ' :: (cs ++ [' ', '|'])) =
      [] :: (splitBars false (' ' :: (cs ++ [' '])) ++ [[]]) := by
    rw [splitBars_cons_bar, ← List.cons_append, splitBars_append_bar, List.cons_append]
    rfl
  simp [cellsByRule, hpieces]

theorem length_cellsByRule_row (cs : List Char) :
    (cellsByRule ('|' :: ' ' :: (cs ++ [' ', '|']))).length = (splitBars false cs).length := by
  rw [cellsByRule_row, length_splitBars_space_cons, length_splitBars_append_space]

end Markdown

open Markdown (cellsByRule splitBars BarsEscaped)

-- ---------------------------------------------------------------------------
-- Rows
-- ---------------------------------------------------------------------------

theorem toList_renderRow (cells : List String) : (renderRow cells).toList =
    '|' :: ' ' :: ([' ', '|', ' '].intercalate (cells.map String.toList) ++ [' ', '|']) := by
  rw [renderRow, String.toList_append, String.toList_append, String.toList_intercalate]
  rfl

theorem length_cellsByRule_renderRow {cells : List String} (h : cells ≠ []) :
    (cellsByRule (renderRow cells).toList).length =
      (cells.map fun cell => (splitBars false cell.toList).length).sum := by
  rw [toList_renderRow, Markdown.length_cellsByRule_row,
    Markdown.length_splitBars_intercalate (by simpa using h), List.map_map]
  rfl

/-- A row is read as its cells if there are any and a backslash stands in front of every bar in them. -/
theorem cellsByRule_renderRow_iff (cells : List String) :
    (cellsByRule (renderRow cells).toList).length = cells.length ↔
      cells ≠ [] ∧ ∀ cell ∈ cells, BarsEscaped cell.toList := by
  rcases eq_or_ne cells [] with rfl | hne
  · rw [toList_renderRow, Markdown.length_cellsByRule_row]
    simp [splitBars]
  · rw [length_cellsByRule_renderRow hne, sum_map_eq_length_iff
      fun cell : String => Markdown.length_splitBars_pos false cell.toList]
    simp [hne, Markdown.length_splitBars_false_eq_one_iff]

theorem feed_notMem_renderRow_iff {cells : List String} :
    '\n' ∉ (renderRow cells).toList ↔ ∀ cell ∈ cells, '\n' ∉ cell.toList := by
  rw [toList_renderRow]
  simp [Text.mem_intercalate_iff]

-- ---------------------------------------------------------------------------
-- Tables
-- ---------------------------------------------------------------------------

/-- A table as it is read from a source: the alignment of each column, and rows of cells that hold
inlines. -/
structure Table where
  alignments : List Alignment
  head : List (List Inline)
  rows : List (List (List Inline))

def rowOf (cells : List (List Inline)) : Block :=
  .tableRow (cells.map .tableCell)

def Table.toBlock (t : Table) : Block :=
  .table t.alignments (rowOf t.head) (t.rows.map rowOf)

def rowText (cells : List (List Inline)) : String :=
  renderRow (cells.map renderInlines)

/-- The line that sets the columns. -/
def columnsText (alignments : List Alignment) : String :=
  "|" ++ "|".intercalate (alignments.map Alignment.dashes) ++ "|"

def Table.texts (t : Table) : List String :=
  rowText t.head :: columnsText t.alignments :: t.rows.map rowText

/-- Whether a table is written on two lines and one for each row, and the rule finds as many cells on the
line of the head, and on that of every row, as it has. -/
def Table.KeepsShape (t : Table) : Prop :=
  ∃ top columns lines, Text.lines t.toBlock.render = top :: columns :: lines ∧
    List.Forall₂ (fun line cells => (cellsByRule line.toList).length = cells.length)
      (top :: lines) (t.head :: t.rows)

/-- Whether a cell stays on the line of its row and between its bars. -/
def StaysOnLine (content : List Inline) : Prop :=
  '\n' ∉ (renderInlines content).toList ∧ BarsEscaped (renderInlines content).toList

theorem render_rowOf (cells : List (List Inline)) : (rowOf cells).render = rowText cells := by
  have hcells : renderEach (cells.map .tableCell) = cells.map renderInlines := by
    induction cells with
    | nil => rfl
    | cons cell cells ih => rw [List.map_cons, renderEach, ih, Block.render, List.map_cons]
  rw [rowOf, Block.render, hcells, rowText]

theorem Table.render_toBlock (t : Table) : t.toBlock.render = joinLines t.texts := by
  have hrows : ∀ rows : List (List (List Inline)),
      List.zipWith asRow (rows.map rowOf) (renderEach (rows.map rowOf)) = rows.map rowText := by
    intro rows
    induction rows with
    | nil => rfl
    | cons row rows ih =>
      rw [List.map_cons, renderEach, List.zipWith_cons_cons, ih, render_rowOf, List.map_cons]
      rfl
  rw [Table.toBlock, Block.render, hrows, render_rowOf]
  rfl

theorem bar_ends_columnsText (alignments : List Alignment) :
    (columnsText alignments).toList.getLast? = some '|' := by
  rw [columnsText, String.toList_append]
  exact List.getLast?_concat

theorem feed_notMem_columnsText (alignments : List Alignment) : '\n' ∉ (columnsText alignments).toList := by
  rw [columnsText, String.toList_append, String.toList_append, String.toList_intercalate]
  have hdashes : ∀ alignment : Alignment, '\n' ∉ alignment.dashes.toList := by
    intro alignment
    cases alignment <;> decide
  simp [Text.mem_intercalate_iff, hdashes]

theorem bar_ends_texts (t : Table) : ∀ text ∈ t.texts, text.toList.getLast? = some '|' := by
  have hrow : ∀ cells, (rowText cells).toList.getLast? = some '|' := by
    intro cells
    rw [rowText, toList_renderRow, ← List.cons_append, ← List.cons_append]
    exact List.getLast?_append_of_ne_nil _ (List.cons_ne_nil ' ' ['|'])
  refine List.forall_mem_cons.mpr ⟨hrow t.head, List.forall_mem_cons.mpr
    ⟨bar_ends_columnsText t.alignments, fun text htext => ?_⟩⟩
  obtain ⟨row, -, rfl⟩ := List.mem_map.mp htext
  exact hrow row

/-- What ends the last of some texts ends what they are put together to. -/
theorem getLast?_intercalate {sep : List Char} {c : Char} {parts : List (List Char)} (hne : parts ≠ [])
    (h : ∀ part ∈ parts, part.getLast? = some c) : (sep.intercalate parts).getLast? = some c := by
  induction parts with
  | nil => exact absurd rfl hne
  | cons part parts ih =>
    obtain ⟨hpart, hparts⟩ := List.forall_mem_cons.mp h
    cases parts with
    | nil => rwa [List.intercalate_singleton]
    | cons next parts =>
      have hrest := ih (List.cons_ne_nil next parts) hparts
      rw [List.intercalate_cons_cons, List.getLast?_append, hrest, Option.some_or]

theorem Table.toList_render (t : Table) :
    t.toBlock.render.toList = ['\n'].intercalate (t.texts.map String.toList) := by
  rw [Table.render_toBlock, joinLines, String.toList_intercalate]
  rfl

theorem Table.not_isWhole_render (t : Table) : ¬ Text.IsWhole t.toBlock.render.toList := by
  have hlast : t.toBlock.render.toList.getLast? = some '|' := by
    rw [Table.toList_render]
    refine getLast?_intercalate (by simp [Table.texts]) ?_
    simpa using bar_ends_texts t
  rintro (hnil | hfeed)
  · rw [hnil] at hlast
    cases hlast
  · rw [hfeed] at hlast
    cases hlast

/-- There is one line for each text exactly if no text has a line feed. -/
theorem Table.length_lines_iff (t : Table) :
    (Text.lines t.toBlock.render).length = 2 + t.rows.length ↔
      ∀ text ∈ t.texts, '\n' ∉ text.toList := by
  have hlength : (Text.lines t.toBlock.render).length =
      (t.texts.map fun text => (splitFeeds text.toList).length).sum := by
    rw [Text.lines, List.length_map, Text.charLines,
      Text.length_linesOfPieces fun last => Text.getLast?_splitFeeds_ne_nil t.not_isWhole_render,
      Table.toList_render, Text.length_splitFeeds_intercalate (by simp [Table.texts]), List.map_map]
    rfl
  have htexts : t.texts.length = 2 + t.rows.length := by
    rw [Table.texts, List.length_cons, List.length_cons, List.length_map]
    omega
  rw [hlength, ← htexts, sum_map_eq_length_iff fun text : String =>
    Text.length_splitFeeds_pos text.toList]
  simp only [Text.length_splitFeeds_eq_one_iff]

theorem Table.lines_eq {t : Table} (h : ∀ text ∈ t.texts, '\n' ∉ text.toList) :
    Text.lines t.toBlock.render = t.texts := by
  have hends := bar_ends_texts t
  have hpieces : splitFeeds t.toBlock.render.toList = t.texts.map String.toList := by
    rw [Table.toList_render]
    exact Text.splitFeeds_intercalate (by simp [Table.texts]) (by simpa using h)
  have hlines : Text.linesOfPieces (t.texts.map String.toList) = t.texts.map String.toList := by
    refine Text.linesOfPieces_eq ?_ fun last hlast => ?_
    · simp only [List.forall_mem_map]
      intro text htext
      rw [hends text htext]
      decide
    · obtain ⟨text, htext, rfl⟩ := List.mem_map.mp (List.mem_of_getLast? hlast)
      have hbar := hends text htext
      intro hnil
      rw [hnil] at hbar
      cases hbar
  rw [Text.lines, Text.charLines, hpieces, hlines, List.map_map]
  simp

/-- A row is one line with as many cells as it has if it has any and each of them stays on the line. -/
theorem rowText_kept_iff (cells : List (List Inline)) :
    ('\n' ∉ (rowText cells).toList ∧ (cellsByRule (rowText cells).toList).length = cells.length) ↔
      cells ≠ [] ∧ ∀ cell ∈ cells, StaysOnLine cell := by
  have hcells := cellsByRule_renderRow_iff (cells.map renderInlines)
  rw [List.length_map] at hcells
  rw [rowText, hcells, feed_notMem_renderRow_iff]
  simp only [List.forall_mem_map, ne_eq, List.map_eq_nil_iff, StaysOnLine, forall_and]
  exact and_left_comm

theorem Table.keepsShape_iff (t : Table) :
    t.KeepsShape ↔ ∀ row ∈ t.head :: t.rows, row ≠ [] ∧ ∀ cell ∈ row, StaysOnLine cell := by
  have hcolumns := feed_notMem_columnsText t.alignments
  have hsame : ∀ rows : List (List (List Inline)),
      List.Forall₂ (fun line cells => (cellsByRule line.toList).length = cells.length)
          (rows.map rowText) rows ↔
        ∀ row ∈ rows, (cellsByRule (rowText row).toList).length = row.length := by
    intro rows
    rw [List.forall₂_map_left_iff, List.forall₂_same]
  -- First for the whole table: its lines are told apart, and each row has its cells. Then row by row.
  have hrows : t.KeepsShape ↔ (∀ row ∈ t.head :: t.rows, '\n' ∉ (rowText row).toList) ∧
      ∀ row ∈ t.head :: t.rows, (cellsByRule (rowText row).toList).length = row.length := by
    have hfeeds : (∀ text ∈ t.texts, '\n' ∉ text.toList) ↔
        ∀ row ∈ t.head :: t.rows, '\n' ∉ (rowText row).toList := by
      simp [Table.texts, hcolumns]
    rw [← hfeeds, ← hsame]
    constructor
    · rintro ⟨top, columns, lines, hlines, hcells⟩
      have hlength := hcells.length_eq
      have hnone := t.length_lines_iff.mp (by
        simp only [hlines, List.length_cons] at hlength ⊢
        omega)
      rw [Table.lines_eq hnone] at hlines
      obtain ⟨rfl, -, rfl⟩ : rowText t.head = top ∧ columnsText t.alignments = columns ∧
          t.rows.map rowText = lines := by
        simpa [Table.texts] using hlines
      exact ⟨hnone, hcells⟩
    · rintro ⟨hnone, hcells⟩
      exact ⟨_, _, _, Table.lines_eq hnone, hcells⟩
  rw [hrows, ← forall₂_and]
  exact forall₂_congr fun row _ => rowText_kept_iff row

-- ---------------------------------------------------------------------------
-- What is in a cell
-- ---------------------------------------------------------------------------

mutual

/-- The texts that an inline is written with, without the marks around them. A break is a line feed. -/
def Inline.texts : Inline → List String
  | .text text | .html text | .math _ text => [text]
  | .code attr text => [text, attr.showNonempty]
  | .emphasis content | .strong content | .strikethrough content => textsOf content
  | .link dest title content | .image dest title content => dest :: title :: textsOf content
  | .span attr content => attr.show :: textsOf content
  | .softBreak | .hardBreak => ["\n"]

def textsOf : List Inline → List String
  | [] => []
  | i :: is => i.texts ++ textsOf is

end

theorem mem_renderCode_iff {c : Char} (h : c = '|' ∨ c = '\n' ∨ c = '\r') (attr : Attr) (text : String) :
    c ∈ (renderCode attr text).toList ↔ c ∈ text.toList ∨ c ∈ attr.showNonempty.toList := by
  have htick : c ≠ '\x60' := by rcases h with rfl | rfl | rfl <;> decide
  have hpad : ∀ p : Prop, [Decidable p] → c ∉ (if p then " " else "").toList := by
    intro p _
    split <;> rcases h with rfl | rfl | rfl <;> decide
  simp [renderCode, Text.repeated, htick, hpad]

theorem mem_renderTarget_iff {c : Char} (h : c = '|' ∨ c = '\n' ∨ c = '\r') (dest title : String) :
    c ∈ (renderTarget dest title).toList ↔ c ∈ dest.toList ∨ c ∈ title.toList := by
  have hmark : c ≠ '(' ∧ c ≠ ')' ∧ c ≠ '"' ∧ c ≠ ' ' := by rcases h with rfl | rfl | rfl <;> decide
  by_cases htitle : title = ""
  · simp [renderTarget, htitle, hmark]
  · simp [renderTarget, htitle, hmark]

mutual

/-- No mark of an inline is a bar, a line feed or a carriage return. -/
theorem mem_render_iff {c : Char} (h : c = '|' ∨ c = '\n' ∨ c = '\r') :
    ∀ i : Inline, c ∈ i.render.toList ↔ ∃ text ∈ i.texts, c ∈ text.toList
  | .text _ | .html _ => by simp [Inline.render, Inline.texts]
  | .math display text => by
    have hdollar : c ≠ '$' := by rcases h with rfl | rfl | rfl <;> decide
    cases display <;> simp [Inline.render, Inline.texts, hdollar]
  | .code attr text => by
    rw [Inline.render, mem_renderCode_iff h]
    simp [Inline.texts]
  | .emphasis content | .strong content | .strikethrough content => by
    have hmark : c ≠ '*' ∧ c ≠ '~' := by rcases h with rfl | rfl | rfl <;> decide
    rw [Inline.texts, ← mem_renderInlines_iff h content]
    simp [Inline.render, hmark]
  | .link dest title content | .image dest title content => by
    have hmark : c ≠ '[' ∧ c ≠ ']' ∧ c ≠ '!' := by rcases h with rfl | rfl | rfl <;> decide
    have htarget := mem_renderTarget_iff h dest title
    rw [Inline.texts, List.exists_mem_cons_iff, List.exists_mem_cons_iff,
      ← mem_renderInlines_iff h content]
    simp [Inline.render, hmark, htarget]
    exact or_rotate
  | .span attr content => by
    have hmark : c ≠ '[' ∧ c ≠ ']' := by rcases h with rfl | rfl | rfl <;> decide
    rw [Inline.texts, List.exists_mem_cons_iff, ← mem_renderInlines_iff h content]
    simp [Inline.render, hmark, or_comm]
  | .softBreak => by simp [Inline.render, Inline.texts]
  | .hardBreak => by
    have hmark : c ≠ '\\' := by rcases h with rfl | rfl | rfl <;> decide
    simp [Inline.render, Inline.texts, hmark]

theorem mem_renderInlines_iff {c : Char} (h : c = '|' ∨ c = '\n' ∨ c = '\r') :
    ∀ inlines : List Inline,
      c ∈ (renderInlines inlines).toList ↔ ∃ text ∈ textsOf inlines, c ∈ text.toList
  | [] => by simp [renderInlines, textsOf]
  | i :: is => by
    rw [renderInlines, String.toList_append, List.mem_append, mem_render_iff h i,
      mem_renderInlines_iff h is, textsOf]
    simp [or_and_right, exists_or]

end

theorem StaysOnLine.of_texts {content : List Inline}
    (h : ∀ text ∈ textsOf content, '\n' ∉ text.toList ∧ '|' ∉ text.toList) : StaysOnLine content := by
  refine ⟨fun hfeed => ?_, fun before after heq => ?_⟩
  · obtain ⟨text, htext, hmem⟩ := (mem_renderInlines_iff (.inr (.inl rfl)) content).mp hfeed
    exact (h text htext).1 hmem
  · have hbar : '|' ∈ (renderInlines content).toList := by simp [heq]
    obtain ⟨text, htext, hmem⟩ := (mem_renderInlines_iff (.inl rfl) content).mp hbar
    exact absurd hmem (h text htext).2

/-- A table is written with its rows on lines of their own and its cells between their bars exactly if no
row is empty and in every cell a backslash stands in front of each bar and there is no line feed. Cells whose
texts have neither bars nor line feeds are such cells. -/
theorem Table.keepsShape (t : Table) :
    (t.KeepsShape ↔ ∀ row ∈ t.head :: t.rows, row ≠ [] ∧ ∀ cell ∈ row, StaysOnLine cell) ∧
      ((∀ row ∈ t.head :: t.rows, row ≠ [] ∧ ∀ cell ∈ row, ∀ text ∈ textsOf cell,
        '\n' ∉ text.toList ∧ '|' ∉ text.toList) → t.KeepsShape) :=
  ⟨t.keepsShape_iff, fun h => t.keepsShape_iff.mpr fun row hrow =>
    ⟨(h row hrow).1, fun cell hcell => .of_texts ((h row hrow).2 cell hcell)⟩⟩

/-- Two columns with an empty cell and marks inside of others. -/
theorem Table.keepsShape_twoColumns :
    let t : Table := ⟨[.left, .right], [[.text "n"], [.strong [.text "n", .math false "^2"]]],
      [[[.code (.ofClasses ["r"]) "2"], []]]⟩
    (∀ row ∈ t.head :: t.rows, row ≠ [] ∧ ∀ cell ∈ row, ∀ text ∈ textsOf cell,
      '\n' ∉ text.toList ∧ '|' ∉ text.toList) ∧ t.KeepsShape := by
  intro t
  have hcells : ∀ row ∈ t.head :: t.rows, row ≠ [] ∧ ∀ cell ∈ row, ∀ text ∈ textsOf cell,
      '\n' ∉ text.toList ∧ '|' ∉ text.toList := by
    have hattr : (Attr.ofClasses ["r"]).showNonempty.toList = "\x7b.r\x7d".toList := by cbv
    simp [t, textsOf, Inline.texts, hattr]
  exact ⟨hcells, t.keepsShape.2 hcells⟩

/-- A bar and a break: in a cell of the one row of a table, either makes another table of it. -/
theorem Table.not_keepsShape_bar :
    ¬ (Table.mk [.none] [[.text "a|b"]] []).KeepsShape ∧
      ¬ (Table.mk [.none] [[.text "a", .softBreak, .text "b"]] []).KeepsShape := by
  constructor
  · intro hkeeps
    rw [Table.keepsShape_iff] at hkeeps
    have hcell := ((hkeeps _ List.mem_cons_self).2 _ List.mem_cons_self).2 ['a'] ['b'] (by
      simp [renderInlines, Inline.render])
    revert hcell
    decide
  · intro hkeeps
    rw [Table.keepsShape_iff] at hkeeps
    exact ((hkeeps _ List.mem_cons_self).2 _ List.mem_cons_self).1 (by
      simp [renderInlines, Inline.render])

end Literate
