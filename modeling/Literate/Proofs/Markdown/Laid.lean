import Literate.Proofs.Markdown.TableLines
import Literate.Proofs.Markdown.ListMarker

/-!
# Blocks on lines

`Block.Laid` relates blocks to the lines that they are written on. It leaves out what its lines would not
tell again: text whose marks mean something where they stand, an item or a quote with nothing inside, two lists side
by side that would be read as one, a list whose looseness is not that of its items. It has no formulas and no raw HTML
either. What it has is closed under quotes and lists, at any depth. The lines say nothing of what stands in front of
them; that is `laidOut`.

Main results: `Block.Laid.first` and its companions. The first line of a block begins it at once, and the
first line of an item is never taken for a rule.
-/

namespace Literate.Markdown

-- ---------------------------------------------------------------------------
-- Lists
-- ---------------------------------------------------------------------------

/-- A list of items, with the number of the first or without numbers. -/
def listOf (start : Option UInt64) (items : List Block) : Block :=
  match start with
  | none => .bulletList items
  | some number => .orderedList number items

/-- The mark that the items of a list have. -/
def Block.listMark? : Block → Option Char
  | .bulletList _ => some '-'
  | .orderedList .. => some '.'
  | _ => none

theorem listMark?_listOf (start : Option UInt64) (items : List Block) :
    Block.listMark? (listOf start items) = some (markerOf start).mark := by
  cases start <;> rfl

/-- Whether a block is an item with one block in it. -/
def Block.isSingle : Block → Bool
  | .listItem [_] => true
  | _ => false

/-- The lines of an item: its marker before the first line, and the others indented. -/
def itemLines (marker : List Char) : List (List Char) → List (List Char)
  | [] => []
  | line :: lines => (marker ++ ' ' :: line) :: lines.map (indentedLine (marker.length + 1))

-- ---------------------------------------------------------------------------
-- The relation
-- ---------------------------------------------------------------------------

mutual
/-- A block and the lines that it is written on. In an item of a tight list text is `bare`. -/
inductive Block.Laid : Bool → Block → List (List Char) → Prop where
  | paragraph {line : TextLine} {lines : List TextLine} (fair : ∀ other ∈ line :: lines, other.Fair) :
      Block.Laid false (.paragraph (contentOf (line :: lines))) (writtenLines (line :: lines))
  | plain {line : TextLine} {lines : List TextLine} (fair : ∀ other ∈ line :: lines, other.Fair) :
      Block.Laid true (.plain (contentOf (line :: lines))) (writtenLines (line :: lines))
  | heading (bare : Bool) {level : UInt8} (pos : 1 ≤ level.toNat) (le : level.toNat ≤ 6)
      {line : TextLine} (fair : line.Fair) (no_sign : (spelling line.inlines).getLast? ≠ some '#')
      (no_brace : (spelling line.inlines).getLast? ≠ some '\x7d') {attr : Attr} (names : HasNames attr) :
      Block.Laid bare (.heading level attr line.inlines) [headingLine level attr line.inlines]
  | code (bare : Bool) {attr : Attr} (info : IsInfo attr) {lines : List (List Char)} (ne_nil : lines ≠ [])
      (literal : ∀ line ∈ lines, IsLiteral line) :
      Block.Laid bare (.codeBlock attr (String.ofList (feeds lines))) (fencedLines attr lines)
  | table (bare : Bool) {t : Table} (fair : t.Fair) : Block.Laid bare t.toBlock t.lines
  | rule (bare : Bool) : Block.Laid bare .rule ["---".toList]
  | quote (bare : Bool) {blocks : List Block} {lines : List (List Char)}
      (inside : Blocks.Laid false blocks lines) :
      Block.Laid bare (.blockQuote blocks) (lines.map quotedLine)
  /-- A list is tight if no item of it has more than one block. -/
  | list (bare : Bool) {start : Option UInt64} {items : List Block} {lines : List (List Char)}
      (inside : Items.Laid (items.all Block.isSingle) start items lines) :
      Block.Laid bare (listOf start items) lines
/-- Blocks and the lines that they are written on, with an empty line between each two. -/
inductive Blocks.Laid : Bool → List Block → List (List Char) → Prop where
  | single {bare : Bool} {block : Block} {lines : List (List Char)} (head : Block.Laid bare block lines) :
      Blocks.Laid bare [block] lines
  /-- Two lists with one mark would be read as one. -/
  | cons {block next : Block} {blocks : List Block} {lines more : List (List Char)}
      (head : Block.Laid false block lines) (tail : Blocks.Laid false (next :: blocks) more)
      (apart : ∀ mark ∈ Block.listMark? block, Block.listMark? next ≠ some mark) :
      Blocks.Laid false (block :: next :: blocks) (lines ++ [] :: more)
/-- The items of a list and the lines that they are written on, the first item with number `start`. -/
inductive Items.Laid : Bool → Option UInt64 → List Block → List (List Char) → Prop where
  | single {bare : Bool} {start : Option UInt64} (fits : FitsMarker start) {blocks : List Block}
      {lines : List (List Char)} (inside : Blocks.Laid bare blocks lines)
      (no_rule : start = none → blocks.head? ≠ some .rule) :
      Items.Laid bare start [.listItem blocks] (itemLines (markerText start) lines)
  | cons {bare : Bool} {start : Option UInt64} (fits : FitsMarker start) {blocks items : List Block}
      {lines more : List (List Char)} (inside : Blocks.Laid bare blocks lines)
      (no_rule : start = none → blocks.head? ≠ some .rule)
      (tail : Items.Laid bare (start.map (· + 1)) items more) :
      Items.Laid bare start (.listItem blocks :: items) (itemLines (markerText start) lines ++ more)
end

theorem Blocks.Laid.ne_nil {bare : Bool} {blocks : List Block} {lines : List (List Char)}
    (h : Blocks.Laid bare blocks lines) : blocks ≠ [] := by
  cases h <;> exact List.cons_ne_nil _ _

theorem Items.Laid.ne_nil {bare : Bool} {start : Option UInt64} {items : List Block}
    {lines : List (List Char)} (h : Items.Laid bare start items lines) : items ≠ [] := by
  cases h <;> exact List.cons_ne_nil _ _

-- ---------------------------------------------------------------------------
-- First lines
-- ---------------------------------------------------------------------------

/-- A line that begins a block; it is a rule, or has something else in it than hyphens. -/
structure BeginsBlock (isRule : Prop) (line : List Char) : Prop where
  begins : BeginsText line
  other : HasOther line ∨ isRule

/-- The first line of an item. -/
structure BeginsItem (start : Option UInt64) (line : List Char) : Prop where
  fits : FitsMarker start
  behind : ∃ rest, line = markerText start ++ ' ' :: rest ∧ BeginsText rest ∧
    (start = none → HasOther rest)

theorem BeginsItem.beginsBlock {start : Option UInt64} {line : List Char} (h : BeginsItem start line)
    (isRule : Prop) : BeginsBlock isRule line := by
  obtain ⟨rest, rfl, hrest, hother⟩ := h.behind
  have hbegins := (writesMarker h.fits).begins.append (' ' :: rest)
  refine ⟨hbegins, .inl ?_⟩
  cases start with
  | none => exact (hother rfl).bullet
  | some number =>
    refine hbegins.hasOther ?_
    intro hhead
    have hread := (writesMarker h.fits).read (' ' :: rest)
    obtain ⟨c, cs, hcs⟩ := List.exists_cons_of_ne_nil
      (show markerText (some number) ++ ' ' :: rest ≠ [] by simp)
    rw [hcs, List.head?_cons, Option.some.injEq] at hhead
    rw [hcs, hhead] at hread
    have hmark := congrArg (fun found => found.map fun pair => pair.1.mark) hread
    exact absurd hmark (by simp [Marker.read?, markerOf])

theorem BeginsItem.opensItem {start : Option UInt64} {line : List Char} (h : BeginsItem start line) :
    OpensItem line := by
  refine ⟨(h.beginsBlock False).begins, fun below => ?_⟩
  obtain ⟨rest, rfl, -⟩ := h.behind
  have hread := (writesMarker h.fits).read (' ' :: rest ++ below)
  rw [← List.append_assoc] at hread
  exact ⟨markerOf start, rest ++ below, hread⟩

theorem BeginsItem.of_blocks {start : Option UInt64} (hfits : FitsMarker start) {isRule : Prop}
    (hrule : start = none → ¬ isRule) {line : List Char} (h : BeginsBlock isRule line) :
    BeginsItem start (markerText start ++ ' ' :: line) := by
  refine ⟨hfits, line, rfl, h.begins, fun hstart => ?_⟩
  exact h.other.resolve_right (hrule hstart)

theorem beginsBlock_of_head {line : List Char} (h : BeginsText line) (hdash : line.head? ≠ some '-')
    (isRule : Prop) : BeginsBlock isRule line :=
  ⟨h, .inl (h.hasOther hdash)⟩

theorem beginsBlock_writtenLines {line : TextLine} {lines : List TextLine}
    (h : ∀ other ∈ line :: lines, other.Fair) (isRule : Prop) :
    ∃ first rest, writtenLines (line :: lines) = first :: rest ∧ BeginsBlock isRule first := by
  obtain ⟨first, rest, hwritten⟩ := List.exists_cons_of_ne_nil (writtenLines_ne_nil line lines)
  have htext := isTextLine_of_mem_writtenLines h
  rw [hwritten] at htext
  have hfirst := htext first (List.mem_cons_self ..)
  refine ⟨first, rest, hwritten, beginsBlock_of_head hfirst.beginsText ?_ isRule⟩
  obtain ⟨c, cs, rfl, hc⟩ := hfirst.exists_cons
  have hdash : c ≠ '-' := ne_of_startsBlock hc (by decide)
  simpa using hdash

theorem beginsBlock_replicate {c : Char} (hgap : isGap c = false) (hend : isLineEnd c = false)
    (hdash : c ≠ '-') {n : Nat} (hn : n ≠ 0) (cs : List Char) (isRule : Prop) :
    BeginsBlock isRule (List.replicate n c ++ cs) := by
  obtain ⟨m, rfl⟩ := Nat.exists_eq_succ_of_ne_zero hn
  rw [List.replicate_succ, List.cons_append]
  exact beginsBlock_of_head ⟨c, _, rfl, hgap, hend⟩ (by simpa using hdash) isRule

theorem beginsBlock_table {t : Table} (h : t.Fair) (isRule : Prop) :
    ∃ first rest, t.lines = first :: rest ∧ BeginsBlock isRule first := by
  refine ⟨_, _, rfl, ?_⟩
  rw [toList_rowText (h.ne_nil t.head List.mem_cons_self)]
  exact beginsBlock_of_head ⟨_, _, rfl, rfl, rfl⟩ (by simp) isRule

mutual
theorem Block.Laid.first : ∀ {bare : Bool} {block : Block} {lines : List (List Char)},
    Block.Laid bare block lines → ∃ line rest, lines = line :: rest ∧ BeginsBlock (block = .rule) line
  | _, _, _, .paragraph fair => beginsBlock_writtenLines fair _
  | _, _, _, .plain fair => beginsBlock_writtenLines fair _
  | _, _, _, .heading bare pos le fair no_sign no_brace names =>
    ⟨_, _, rfl, beginsBlock_replicate rfl rfl (by decide) (by omega) _ _⟩
  | _, _, _, .code bare info ne_nil literal =>
    ⟨_, _, rfl, beginsBlock_replicate rfl rfl (by decide) (fenceSize_ne_zero _) _ _⟩
  | _, _, _, .table bare fair => beginsBlock_table fair _
  | _, _, _, .rule bare => ⟨_, _, rfl, ⟨_, _, rfl, rfl, rfl⟩, .inr rfl⟩
  | _, _, _, .quote bare inside => by
    obtain ⟨line, rest, rfl, hline⟩ := Blocks.Laid.first inside
    refine ⟨quotedLine line, rest.map quotedLine, rfl, ?_⟩
    unfold quotedLine
    split <;> exact beginsBlock_of_head ⟨_, _, rfl, rfl, rfl⟩ (by simp) _
  | _, _, _, .list bare inside => by
    obtain ⟨line, rest, rfl, hline⟩ := Items.Laid.first inside
    exact ⟨line, rest, rfl, hline.beginsBlock _⟩
theorem Blocks.Laid.first : ∀ {bare : Bool} {blocks : List Block} {lines : List (List Char)},
    Blocks.Laid bare blocks lines →
      ∃ line rest, lines = line :: rest ∧ BeginsBlock (blocks.head? = some .rule) line
  | _, _, _, .single head => by
    obtain ⟨line, rest, rfl, hline⟩ := Block.Laid.first head
    exact ⟨line, rest, rfl, hline.begins, hline.other.imp_right (congrArg some)⟩
  | _, _, _, .cons head tail apart => by
    obtain ⟨line, rest, rfl, hline⟩ := Block.Laid.first head
    exact ⟨line, _, rfl, hline.begins, hline.other.imp_right (congrArg some)⟩
theorem Items.Laid.first : ∀ {bare : Bool} {start : Option UInt64} {items : List Block}
    {lines : List (List Char)}, Items.Laid bare start items lines →
      ∃ line rest, lines = line :: rest ∧ BeginsItem start line
  | _, _, _, _, .single fits inside no_rule => by
    obtain ⟨line, rest, rfl, hline⟩ := Blocks.Laid.first inside
    exact ⟨_, _, rfl, .of_blocks fits no_rule hline⟩
  | _, _, _, _, .cons fits inside no_rule tail => by
    obtain ⟨line, rest, rfl, hline⟩ := Blocks.Laid.first inside
    exact ⟨_, _, rfl, .of_blocks fits no_rule hline⟩
end

end Literate.Markdown
