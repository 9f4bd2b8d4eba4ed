import Literate.Proofs.Document.TableText
import Literate.Proofs.Markdown.LeafBlocks

/-!
# Tables read back from their lines

A table is read row by row: its head together with the row that sets the columns, and then all lines down to one that
is no row. The pieces between the bars of a row are the cells that it was written for, with a space on either side
(`splitBars_rowText`), as long as no cell has a bar in it. What a cell tells is said as for any phrase, only that
its tokens are those of a cell.

Main result: `readAsLeaf_table`.
-/

namespace Literate.Markdown

-- ---------------------------------------------------------------------------
-- Cells
-- ---------------------------------------------------------------------------

/-- What can stand in a cell: a phrase, perhaps an empty one, without gaps at its ends. -/
structure IsCell (content : List Inline) : Prop where
  phrase : Phrase false false none none content
  first : ∀ c ∈ (spelling content).head?, isGap c = false
  last : ∀ c ∈ (spelling content).getLast?, isGap c = false

def isCell (content : List Inline) : Bool :=
  isPhrase false false none none content && (spelling content).head?.all (fun c => !isGap c) &&
    (spelling content).getLast?.all fun c => !isGap c

theorem IsCell.of_isCell {content : List Inline} (h : isCell content = true) : IsCell content := by
  rw [isCell, Bool.and_eq_true, Bool.and_eq_true] at h
  obtain ⟨⟨hphrase, hfirst⟩, hlast⟩ := h
  refine ⟨.of_isPhrase hphrase, fun c hc => ?_, fun c hc => ?_⟩
  · simpa using (Option.all_eq_true _ _).1 hfirst c hc
  · simpa using (Option.all_eq_true _ _).1 hlast c hc

/-- What stands between the bars around a cell. -/
def cellText (content : List Inline) : List Char :=
  ' ' :: (spelling content ++ [' '])

def cellTokens (content : List Inline) : List Token :=
  tokensOf true [] (spelling content)

/-- The cells of a row, one behind the other. -/
def cellsText (row : List (List Inline)) : List Char :=
  row.flatMap fun content => cellText content ++ ['|']

section

variable {content : List Inline} (h : IsCell content)
include h

theorem IsCell.inline : ∀ c ∈ cellText content, isLineEnd c = false ∧ c ≠ '|' := by
  have hspace : isLineEnd ' ' = false ∧ ' ' ≠ '|' := ⟨rfl, by decide⟩
  exact List.forall_mem_cons.2 ⟨hspace, List.forall_mem_append.2 ⟨h.phrase.inline, List.forall_mem_singleton.2 hspace⟩⟩

/-- The spaces at the ends of a cell are none of it. -/
theorem IsCell.trimmed : Text.dropEndWhile isGap ((cellText content).dropWhile isGap) = spelling content := by
  have hfirst : (cellText content).dropWhile isGap = (spelling content ++ [' ']).dropWhile isGap := rfl
  cases hspelling : spelling content with
  | nil =>
    rw [hfirst, hspelling]
    rfl
  | cons c cs =>
    have hc : isGap c = false := h.first c (by rw [hspelling]; rfl)
    rw [hfirst, hspelling, List.cons_append, List.dropWhile_cons_of_neg (by simp [hc]), ← List.cons_append,
      ← hspelling]
    exact Text.dropEndWhile_append [' '] h.last (by simp [isGap])

theorem IsCell.told (definitions : Definitions) :
    Inlines.Told content (eventsOfInlines (Markdown.phrase true definitions (cellTokens content))) :=
  (h.phrase.spells true (by simp) .none).told definitions

end

/-- The events of cells tell of them. -/
theorem exists_cellsWritten {row : List (List Inline)} (h : ∀ content ∈ row, IsCell content)
    (definitions : Definitions) :
    ∃ raws, Cells.Written raws (eventsOfCells definitions (row.map cellTokens)) ∧
      attachBlocks raws = row.map .tableCell := by
  induction row with
  | nil => exact ⟨[], .nil, rfl⟩
  | cons content row ih =>
    obtain ⟨hcontent, hrow⟩ := List.forall_mem_cons.1 h
    obtain ⟨raw, hraw, hattached⟩ := hcontent.told definitions
    obtain ⟨raws, hraws, hothers⟩ := ih hrow
    refine ⟨.tableCell raw :: raws, .cons hraw hraws, ?_⟩
    rw [attachBlocks, Block.attach, hattached, hothers, List.map_cons]

theorem exists_rowsWritten {rows : List (List (List Inline))} (h : ∀ row ∈ rows, ∀ content ∈ row, IsCell content)
    (definitions : Definitions) :
    ∃ raws, Rows.Written raws ((rows.map (·.map cellTokens)).flatMap fun row =>
        Tag.tableRow.around (eventsOfCells definitions row)) ∧ attachBlocks raws = rows.map rowOf := by
  induction rows with
  | nil => exact ⟨[], .nil, rfl⟩
  | cons row rows ih =>
    obtain ⟨hrow, hrows⟩ := List.forall_mem_cons.1 h
    obtain ⟨cells, hcells, hattached⟩ := exists_cellsWritten hrow definitions
    obtain ⟨raws, hraws, hothers⟩ := ih hrows
    refine ⟨.tableRow cells :: raws, .cons hcells hraws, ?_⟩
    rw [attachBlocks, Block.attach, hattached, hothers, List.map_cons]
    rfl

-- ---------------------------------------------------------------------------
-- Rows
-- ---------------------------------------------------------------------------

/-- Parts with a separator between each two are as well parts with one half of it in front and the other behind. -/
theorem append_intercalate_append (front back : List Char) {parts : List (List Char)} (h : parts ≠ []) :
    front ++ ((back ++ front).intercalate parts ++ back) = parts.flatMap fun part => front ++ (part ++ back) := by
  induction parts with
  | nil => exact absurd rfl h
  | cons part parts ih =>
    cases parts with
    | nil => simp
    | cons next parts =>
      rw [List.flatMap_cons, ← ih (List.cons_ne_nil next parts), List.intercalate_cons_cons]
      simp

theorem toList_rowText {row : List (List Inline)} (h : row ≠ []) : (rowText row).toList = '|' :: cellsText row := by
  have hmap : (row.map renderInlines).map String.toList ≠ [] := by simpa using h
  have hcells := append_intercalate_append [' '] [' ', '|'] hmap
  rw [rowText, toList_renderRow]
  refine congrArg ('|' :: ·) (hcells.trans ?_)
  simp [List.flatMap_map, cellsText, cellText, spelling]

theorem toList_columnsText {alignments : List Alignment} (h : alignments ≠ []) :
    (columnsText alignments).toList = '|' :: alignments.flatMap fun column => column.dashes.toList ++ ['|'] := by
  have hmap : (alignments.map Alignment.dashes).map String.toList ≠ [] := by simpa using h
  have hcolumns := append_intercalate_append [] ['|'] hmap
  rw [columnsText, String.toList_append, String.toList_append, String.toList_intercalate]
  refine congrArg ('|' :: ·) (hcolumns.trans ?_)
  simp [List.flatMap_map]

theorem splitBars_cellsText {row : List (List Inline)} (h : ∀ content ∈ row, IsCell content) :
    splitBars false (cellsText row) = row.map cellText ++ [[]] := by
  induction row with
  | nil => rfl
  | cons content row ih =>
    obtain ⟨hcontent, hrow⟩ := List.forall_mem_cons.1 h
    have hbar : '|' ∉ cellText content := fun hmem => (hcontent.inline _ hmem).2 rfl
    have hsplit := splitBars_append_bar false (' ' :: spelling content) (cellsText row)
    have htext : cellsText (content :: row) = ' ' :: spelling content ++ ' ' :: '|' :: cellsText row := by
      simp [cellsText, cellText]
    rw [htext, hsplit, ih hrow]
    exact congrArg (· ++ _) (splitBars_text hbar false)

theorem cellsOfPieces_append (pieces : List (List Char)) :
    cellsOfPieces (pieces ++ [[]]) = pieces.map (·.dropWhile isGap) := by
  induction pieces with
  | nil => rfl
  | cons piece pieces ih =>
    obtain ⟨next, others, hpieces⟩ := List.exists_cons_of_ne_nil (show pieces ++ [[]] ≠ [] by simp)
    rw [List.cons_append, hpieces, cellsOfPieces, ← hpieces, ih, List.map_cons]
    simp

section

variable {row : List (List Inline)} (hne : row ≠ []) (h : ∀ content ∈ row, IsCell content) {rest : List Char}
  (hrest : AtEnd rest)
include hne h

theorem inline_rowText : ∀ c ∈ (rowText row).toList, isLineEnd c = false := by
  rw [toList_rowText hne]
  refine List.forall_mem_cons.2 ⟨rfl, fun c hc => ?_⟩
  obtain ⟨content, hcontent, hmem⟩ := List.mem_flatMap.1 hc
  rcases List.mem_append.1 hmem with hmem | hmem
  · exact ((h content hcontent).inline c hmem).1
  · obtain rfl : c = '|' := by simpa using hmem
    rfl

include hrest

theorem takeWhile_rowText :
    ((rowText row).toList ++ rest).takeWhile (fun c => !isLineEnd c) = '|' :: cellsText row := by
  rw [hrest.takeWhile_append rfl, List.takeWhile_eq_self_iff.2 fun c hc => by simp [inline_rowText hne h c hc],
    toList_rowText hne]

theorem splitBars_rowText :
    splitBars false (((rowText row).toList ++ rest).takeWhile fun c => !isLineEnd c) =
      [] :: (row.map cellText ++ [[]]) := by
  rw [takeWhile_rowText hne h hrest, splitBars_cons_bar, splitBars_cellsText h]

theorem headColumns?_rowText : headColumns? ((rowText row).toList ++ rest) = some row.length := by
  have hlast : ([] :: (row.map cellText ++ [[]])).getLast? = some [] := by
    rw [← List.cons_append, List.getLast?_concat]
  rw [headColumns?, splitBars_rowText hne h hrest]
  simp [hlast]

theorem rowTokens_rowText : rowTokens row.length ((rowText row).toList ++ rest) = row.map cellTokens := by
  have hcells : cells ((rowText row).toList ++ rest) = (row.map cellText).map (·.dropWhile isGap) := by
    obtain ⟨content, others, rfl⟩ := List.exists_cons_of_ne_nil hne
    rw [cells, splitBars_rowText hne h hrest]
    exact cellsOfPieces_append ((content :: others).map cellText)
  have htokens : (cells ((rowText row).toList ++ rest)).map
      (fun cell => tokensOf true [] (Text.dropEndWhile isGap cell)) = row.map cellTokens := by
    rw [hcells, List.map_map, List.map_map]
    exact List.map_congr_left fun content hcontent => congrArg (tokensOf true []) (h content hcontent).trimmed
  have hlength : (row.map cellTokens).length = row.length := List.length_map ..
  rw [rowTokens]
  simp only [htokens, hlength, Nat.sub_self, List.replicate_zero, List.append_nil]
  rw [← hlength, List.take_length]

end

-- ---------------------------------------------------------------------------
-- Columns
-- ---------------------------------------------------------------------------

theorem scanColumns_dashes (column : Alignment) (done : List Alignment) (anyHyphen : Bool) (cs : List Char) :
    scanColumns ⟨done, .none, true, false, true, anyHyphen⟩ (column.dashes.toList ++ '|' :: cs) =
      scanColumns ⟨column :: done, .none, true, false, true, true⟩ cs := by
  cases column <;> simp [Alignment.dashes, scanColumns, withColon, isLineEnd]

theorem scanColumns_columns (columns : List Alignment) (done : List Alignment) {anyHyphen : Bool}
    (hany : columns ≠ [] ∨ anyHyphen = true) {lineEnd below : List Char} (hend : EndsLine lineEnd below) :
    scanColumns ⟨done, .none, true, false, true, anyHyphen⟩
        ((columns.flatMap fun column => column.dashes.toList ++ ['|']) ++ (lineEnd ++ below)) =
      some (done.reverse ++ columns, below) := by
  induction columns generalizing done anyHyphen with
  | nil =>
    obtain rfl : anyHyphen = true := hany.resolve_left (absurd rfl)
    cases hend <;> simp [scanColumns, scanColumns.finish, isLineEnd, afterLineEnd?]
  | cons column columns ih =>
    have hscan := scanColumns_dashes column done anyHyphen
      ((columns.flatMap fun column => column.dashes.toList ++ ['|']) ++ (lineEnd ++ below))
    have hrest := ih (column :: done) (.inr rfl)
    rw [List.reverse_cons, List.append_assoc, List.singleton_append] at hrest
    rw [← hrest, ← hscan]
    simp

/-- The row that sets the columns is read as these. -/
theorem columns?_columnsText {alignments : List Alignment} (h : alignments ≠ []) {lineEnd below : List Char}
    (hend : EndsLine lineEnd below) :
    columns? ((columnsText alignments).toList ++ (lineEnd ++ below)) = some (alignments, below) := by
  have hscan := @scanColumns_columns alignments [] false (.inl h) lineEnd below hend
  rw [toList_columnsText h, List.cons_append, columns?]
  simpa using hscan

-- ---------------------------------------------------------------------------
-- Tables
-- ---------------------------------------------------------------------------

end Literate.Markdown

namespace Literate

open Markdown (IsCell isCell)

/-- A table with columns, with as many cells in each row as there are columns, and cells that are read back. -/
structure Table.Fair (t : Table) : Prop where
  columns : t.alignments ≠ []
  width : ∀ row ∈ t.head :: t.rows, row.length = t.alignments.length
  cells : ∀ row ∈ t.head :: t.rows, ∀ content ∈ row, IsCell content

/-- Whether a table is read back from its lines. -/
def Table.isFair (t : Table) : Bool :=
  !t.alignments.isEmpty &&
    (t.head :: t.rows).all fun row => row.length = t.alignments.length && row.all isCell

theorem Table.Fair.of_isFair {t : Table} (h : t.isFair = true) : t.Fair := by
  simp only [isFair, Bool.and_eq_true, Bool.not_eq_true', List.isEmpty_eq_false_iff, List.all_eq_true,
    decide_eq_true_eq] at h
  obtain ⟨hcolumns, hrows⟩ := h
  exact ⟨hcolumns, fun row hrow => (hrows row hrow).1,
    fun row hrow content hcontent => .of_isCell ((hrows row hrow).2 content hcontent)⟩

theorem Table.Fair.ne_nil {t : Table} (h : t.Fair) : ∀ row ∈ t.head :: t.rows, row ≠ [] := by
  rintro row hrow rfl
  exact h.columns (List.eq_nil_of_length_eq_zero (h.width [] hrow).symm)

/-- The lines of a table. -/
def Table.lines (t : Table) : List (List Char) :=
  t.texts.map String.toList

namespace Markdown

theorem inline_columnsText {alignments : List Alignment} (h : alignments ≠ []) :
    ∀ c ∈ (columnsText alignments).toList, isLineEnd c = false := by
  have hcolumn : ∀ column : Alignment, ∀ c ∈ column.dashes.toList ++ ['|'], isLineEnd c = false := by
    intro column
    cases column <;> simp [Alignment.dashes, isLineEnd]
  rw [toList_columnsText h]
  refine List.forall_mem_cons.2 ⟨rfl, fun c hc => ?_⟩
  obtain ⟨column, -, hmem⟩ := List.mem_flatMap.1 hc
  exact hcolumn column c hmem

theorem inline_lines {t : Table} (h : t.Fair) : ∀ line ∈ t.lines, ∀ c ∈ line, isLineEnd c = false := by
  have hrow : ∀ row ∈ t.head :: t.rows, ∀ c ∈ (rowText row).toList, isLineEnd c = false := fun row hrow =>
    inline_rowText (h.ne_nil row hrow) (h.cells row hrow)
  refine List.forall_mem_cons.2 ⟨hrow t.head List.mem_cons_self, List.forall_mem_cons.2
    ⟨inline_columnsText h.columns, fun line hline => ?_⟩⟩
  obtain ⟨text, htext, rfl⟩ := List.mem_map.1 hline
  obtain ⟨row, hmem, rfl⟩ := List.mem_map.1 htext
  exact hrow row (List.mem_cons_of_mem _ hmem)

/-- What is below a line with others under it. -/
def belowLine (tail lineEnd : List Char) : List (List Char) → List Char
  | [] => tail
  | line :: lines => line ++ (beneath lines ++ (lineEnd ++ tail))

theorem length_le_belowLine (tail lineEnd : List Char) (lines : List (List Char)) :
    lines.length ≤ (belowLine tail lineEnd lines).length + 1 := by
  cases lines with
  | nil => exact Nat.zero_le _
  | cons line lines =>
    have hlength := length_le_beneath lines
    simp only [belowLine, List.length_cons, List.length_append]
    omega

section

variable {lineEnd tail : List Char} (hend : EndsLine lineEnd tail)
include hend

theorem EndsLine.exists_beneath (lines : List (List Char)) :
    ∃ first, beneath lines ++ (lineEnd ++ tail) = first ++ belowLine tail lineEnd lines ∧
      EndsLine first (belowLine tail lineEnd lines) := by
  cases lines with
  | nil => exact ⟨lineEnd, rfl, hend⟩
  | cons line lines => exact ⟨['\n'], by simp [beneath_cons, belowLine], .feed _⟩

/-- What is taken off a line with its line end is the line, and what is left are the lines below. -/
theorem EndsLine.below_eq {line : List Char} (h : ∀ c ∈ line, Markdown.isLineEnd c = false) :
    (afterLineEnd? ((line ++ (lineEnd ++ tail)).dropWhile fun c => !Markdown.isLineEnd c)).getD [] = tail := by
  rw [List.dropWhile_append_of_pos fun c hc => by simp [h c hc]]
  cases hend <;> simp [Markdown.isLineEnd, afterLineEnd?]

end

/-- A row goes on with a table. -/
theorem interruptsText_bar (cs : List Char) : interruptsText true true ('|' :: cs) = false := rfl

/-- What is no line of a table ends its rows. -/
theorem readRows_stop {containers : List Container} {tail : List Char} (h : Ends containers tail) (n fuel : Nat) :
    readRows containers n fuel tail = ([], tail) := by
  cases fuel with
  | zero => rfl
  | succ fuel =>
    obtain ⟨rest, taken, column, count, henter, hend | ⟨houtside, -⟩⟩ := h.exists_enter
    · have hstop : interruptsText true true (Cursor.mk rest taken column 0).skipAll.rest = true := by
        rcases hend with rfl | ⟨below, rfl⟩
        · rfl
        · rw [skipAll_of_not_isGap rfl]
          rfl
      rw [readRows, enterAll?, henter]
      by_cases hinside : count = containers.length <;> simp [hinside, hstop]
    · rw [readRows, enterAll?, henter]
      simp [houtside]

/-- Rows are read from the lines below a line, down to what is no row. -/
theorem readRows_written {containers : List Container} {lineEnd tail : List Char} (hend : EndsLine lineEnd tail)
    (htail : Ends containers tail) {n : Nat} (hn : n ≠ 0) {rows : List (List (List Inline))}
    (hwidth : ∀ row ∈ rows, row.length = n) (hcells : ∀ row ∈ rows, ∀ content ∈ row, IsCell content) {fuel : Nat}
    (hfuel : rows.length ≤ fuel) :
    readRows containers n fuel
        (belowLine tail lineEnd (rows.map fun row => nestedLine containers (rowText row).toList)) =
      (rows.map (·.map cellTokens), tail) := by
  induction rows generalizing fuel with
  | nil => exact readRows_stop htail n fuel
  | cons row rows ih =>
    obtain ⟨fuel, rfl⟩ : ∃ m, fuel = m + 1 := ⟨fuel - 1, by simp at hfuel; omega⟩
    obtain ⟨hlength, hwidth⟩ := List.forall_mem_cons.1 hwidth
    obtain ⟨hrow, hcells⟩ := List.forall_mem_cons.1 hcells
    have hne : row ≠ [] := by
      rintro rfl
      exact hn hlength.symm
    obtain ⟨first, hbeneath, hfirst⟩ :=
      hend.exists_beneath (rows.map fun row => nestedLine containers (rowText row).toList)
    obtain ⟨taken, column, henter⟩ := carries_nested containers (rowText row).toList _ hfirst.atEnd
    have htokens := rowTokens_rowText hne hrow hfirst.atEnd
    have hbelow := hfirst.below_eq (inline_rowText hne hrow)
    rw [hlength] at htokens
    rw [toList_rowText hne] at henter htokens hbelow
    rw [List.map_cons, belowLine, hbeneath, toList_rowText hne, readRows, henter]
    simp only [List.cons_append] at htokens hbelow ⊢
    simp only [skipAll_of_not_isGap (c := '|') rfl, interruptsText_bar, htokens, hbelow,
      ih hwidth hcells (by simpa using hfuel)]
    rfl

/-- The head of a table is known by the row below it. -/
theorem opensTable?_written {t : Table} (h : t.Fair) (containers : List Container) {lineEnd below : List Char}
    (hend : EndsLine lineEnd below) :
    opensTable? containers ((rowText t.head).toList ++
        '\n' :: (nestedLine containers (columnsText t.alignments).toList ++ (lineEnd ++ below))) =
      some (t.alignments, below) := by
  have hne := h.ne_nil t.head List.mem_cons_self
  have hcells := h.cells t.head List.mem_cons_self
  have hinline := inline_rowText hne hcells
  let under := nestedLine containers (columnsText t.alignments).toList ++ (lineEnd ++ below)
  have hunder : AtEnd ('\n' :: under) := .inr ⟨under, rfl⟩
  have hhead := headColumns?_rowText hne hcells hunder
  have hdrop : ((rowText t.head).toList ++ '\n' :: under).dropWhile (fun c => !isLineEnd c) = '\n' :: under := by
    rw [List.dropWhile_append_of_pos fun c hc => by simp [hinline c hc]]
    rfl
  obtain ⟨taken, column, henter⟩ := carries_nested containers (columnsText t.alignments).toList _ hend.atEnd
  have hcolumns := columns?_columnsText h.columns hend
  have hwidth : t.alignments.length = t.head.length := (h.width t.head List.mem_cons_self).symm
  show Markdown.opensTable? containers ((rowText t.head).toList ++ '\n' :: under) = _
  rw [Markdown.opensTable?, hhead, hdrop]
  simp [afterLineEnd?, under, henter, hcolumns, hwidth]

/-- A bar begins neither a container nor any block but text. -/
theorem bar_begins_leaf (cs : List Char) : BeginsLeaf ('|' :: cs) :=
  ⟨⟨_, _, rfl, rfl, rfl⟩, by simp, by simp, overMarker?_of_read? (by simp [Marker.read?])⟩

theorem readUnindented_bar (b : Builder) (cs : List Char) : b.readUnindented 0 0 ('|' :: cs) = b.readText ('|' :: cs) :=
  rfl

/-- **Tables.** A table is read from its lines. -/
theorem readAsLeaf_table (bare : Bool) {t : Table} (h : t.Fair) : ReadAsLeaf bare t.toBlock t.lines := by
  intro b lineEnd tail hend htail
  have hne := h.ne_nil t.head List.mem_cons_self
  have hhead := h.cells t.head List.mem_cons_self
  have hbody : ∀ row ∈ t.rows, ∀ content ∈ row, IsCell content := fun row hrow =>
    h.cells row (List.mem_cons_of_mem _ hrow)
  -- The row of the columns is read with the head, and all that is below it with the rows.
  let nested := t.rows.map fun row => nestedLine b.containers (rowText row).toList
  let body := belowLine tail lineEnd nested
  obtain ⟨first, hbeneath, hfirst⟩ := hend.exists_beneath nested
  let under := nestedLine b.containers (columnsText t.alignments).toList ++ (first ++ body)
  have hlaid : laidOut b.containers t.lines ++ (lineEnd ++ tail) = '|' :: (cellsText t.head ++ '\n' :: under) := by
    have hrows : ((t.rows.map rowText).map String.toList).map (nestedLine b.containers) = nested := by simp [nested]
    rw [← List.cons_append, ← toList_rowText hne]
    simp only [Table.lines, Table.texts, List.map_cons, laidOut, beneath_cons, hrows, under, body, ← hbeneath]
    simp
  have hopens : opensTable? b.containers ('|' :: (cellsText t.head ++ '\n' :: under)) = some (t.alignments, body) := by
    rw [← List.cons_append, ← toList_rowText hne]
    exact opensTable?_written h b.containers hfirst
  have htop : rowTokens t.alignments.length ('|' :: (cellsText t.head ++ '\n' :: under)) = t.head.map cellTokens := by
    rw [← List.cons_append, ← toList_rowText hne, ← h.width t.head List.mem_cons_self]
    exact rowTokens_rowText hne hhead (.inr ⟨under, rfl⟩)
  have hfuel : t.rows.length ≤ body.length + 1 := by
    have hlength := length_le_belowLine tail lineEnd nested
    rwa [List.length_map] at hlength
  have hrows : readRows b.containers t.alignments.length (body.length + 1) body =
      (t.rows.map (·.map cellTokens), tail) :=
    readRows_written hend htail (by simpa using h.columns) (fun row hrow => h.width row (List.mem_cons_of_mem _ hrow))
      hbody hfuel
  refine ⟨.table t.alignments (t.head.map cellTokens) (t.rows.map (·.map cellTokens)), ?_, ?_, fun definitions => ?_⟩
  · rw [hlaid]
    exact bar_begins_leaf _
  · rw [hlaid, readUnindented_bar, Builder.readText]
    simp only [hopens, htop, hrows]
  · exact .table t.alignments (exists_cellsWritten hhead definitions) (exists_rowsWritten hbody definitions)

end Literate.Markdown
