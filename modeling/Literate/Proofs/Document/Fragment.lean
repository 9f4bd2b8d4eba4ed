import Literate.Proofs.Document.Rendering

/-!
# Blocks read back from their text

`Blocks.Laid` says which blocks are written on lines that can be taken apart again, and what is left to see here
is that the whole way from the text back to the tree goes through these lines: the text is the lines put together
(`Blocks.Laid.toList_renderBlocks`), the scan of it leaves parts that tell of the blocks (`Blocks.Laid.partsOf`), and in
the events of these no two texts without a paragraph are neighbours (`Blocks.Laid.apart`), so that the reader of events
finds the blocks. Whether a line feed ends the last line makes no difference.

Main result: `Blocks.Laid.parseFragment`.
-/

namespace Literate.Markdown

open Builder

-- ---------------------------------------------------------------------------
-- Text without a paragraph
-- ---------------------------------------------------------------------------

theorem Block.Laid.not_plain : ∀ {block : Block} {lines : List (List Char)},
    Block.Laid false block lines → Block.isPlain block = false
  | _, _, .paragraph _ => rfl
  | _, _, .heading .. => rfl
  | _, _, .code .. => rfl
  | _, _, .table .. => rfl
  | _, _, .rule _ => rfl
  | _, _, .quote .. => rfl
  | _, _, @Block.Laid.list _ start _ _ _ => by cases start <;> rfl

mutual
theorem Block.Laid.apart : ∀ {bare : Bool} {block : Block} {lines : List (List Char)},
    Block.Laid bare block lines → Block.apart block = true
  | _, _, _, .paragraph _ => rfl
  | _, _, _, .plain _ => rfl
  | _, _, _, .heading .. => rfl
  | _, _, _, .code .. => rfl
  | _, _, _, .table .. => rfl
  | _, _, _, .rule _ => rfl
  | _, _, _, .quote _ inside => Blocks.Laid.apart inside
  | _, _, _, @Block.Laid.list _ start items _ inside => by
    have hitems := Items.Laid.apart inside
    cases start <;> exact hitems
/-- Text without a paragraph around it stands alone in its item. -/
theorem Blocks.Laid.apart : ∀ {bare : Bool} {blocks : List Block} {lines : List (List Char)},
    Blocks.Laid bare blocks lines → apart blocks = true
  | _, _, _, .single head => by
    simp [Markdown.apart, Block.Laid.apart head, touches]
  | _, _, _, .cons head tail _ => by
    rw [Markdown.apart, Block.Laid.apart head, Blocks.Laid.apart tail, touches, head.not_plain]
    rfl
theorem Items.Laid.apart : ∀ {bare : Bool} {start : Option UInt64} {items : List Block}
    {lines : List (List Char)}, Items.Laid bare start items lines → apart items = true
  | _, _, _, _, .single _ inside _ => by
    simp [Markdown.apart, Block.apart, Blocks.Laid.apart inside, touches]
  | _, _, _, _, .cons _ inside _ tail => by
    rw [Markdown.apart, Block.apart, Blocks.Laid.apart inside, Items.Laid.apart tail]
    rfl
end

-- ---------------------------------------------------------------------------
-- Parts
-- ---------------------------------------------------------------------------

namespace Builder

theorem addAll_of_stack (parts : List Part) {b : Builder} (h : b.stack = []) :
    b.addAll parts = { b with parts := parts.reverse ++ b.parts } := by
  induction parts generalizing b with
  | nil => rfl
  | cons part parts ih =>
    have hadd : b.add part = { b with parts := part :: b.parts } := by
      rw [add, h]
    have hrest := ih (b := b.add part) (by rw [hadd]; exact h)
    rw [addAll, List.foldl_cons, ← addAll, hrest, hadd]
    simp

theorem around_of_stack (blocks : List Block) {b : Builder} (h : b.stack = []) : b.around blocks = b := by
  obtain ⟨stack, parts, afterBlank, bareItem, definitions⟩ := b
  obtain rfl : stack = [] := h
  match blocks with
  | [] => rfl
  | [_] => rfl
  | _ :: _ :: _ => rfl

/-- The fuel is the length of the text, which no run of lines takes more of. -/
theorem parts_of_reaches {size : Option Nat} {cs : List Char} {b last : Builder} (h : Reaches size cs b [] last) :
    ((b.readBlocks size (cs.length + 1) cs).closeMany (b.readBlocks size (cs.length + 1) cs).stack.length).parts =
      (last.closeMany last.stack.length).parts := by
  obtain ⟨fuel, hfuel, hread⟩ := h _ (Nat.lt_succ_self _)
  obtain ⟨n, rfl⟩ := Nat.exists_eq_succ_of_ne_zero (Nat.ne_of_gt hfuel)
  rw [hread, readBlocks]

/-- What is left open at the end of a source is closed there. -/
theorem Open.closeMany_stack {b last : Builder} {more : List Container} (h : Open b more last) (hb : b.stack = []) :
    last.closeMany last.stack.length = b := by
  have hcontainers : b.containers = [] := by simp [Builder.containers, hb]
  rw [length_stack, h.containers, hcontainers, List.nil_append, h.closed]

end Builder

theorem laidOut_nil (lines : List (List Char)) : laidOut [] lines = joined lines := by
  have hnested : nestedLine ([] : List Container) = id := rfl
  induction lines with
  | nil => rfl
  | cons line lines ih =>
    rw [laidOut, hnested, List.map_id]
    cases lines with
    | nil => simp [beneath, joined]
    | cons next lines =>
      rw [joined_cons (List.cons_ne_nil next lines), ← ih, laidOut, hnested, List.map_id, beneath_cons]

section

variable {blocks : List Block} {lines : List (List Char)} (h : Blocks.Laid false blocks lines)
include h

/-- The first line of blocks and what is below it. -/
theorem Blocks.Laid.exists_first {lineEnd : List Char} (hend : EndsLine lineEnd []) :
    ∃ line below, joined lines ++ lineEnd = line ++ below ∧ BeginsText line ∧ AtEnd below := by
  obtain ⟨line, rest, rfl, hline⟩ := h.first
  have hnested : nestedLine ([] : List Container) = id := rfl
  have hbelow := hend.atEnd.beneath rest
  rw [List.append_nil] at hbelow
  refine ⟨line, beneath rest ++ lineEnd, ?_, hline.begins, hbelow⟩
  rw [← laidOut_nil, laidOut, hnested, List.map_id, List.append_assoc]

/-- The lines of blocks are read to the end, from behind what stands in front of the first. -/
theorem Blocks.Laid.reaches (size : Option Nat) {b now : Builder} (hb : b.Settled) (hstack : b.stack = [])
    (hready : Ready b now) (hmark : now.openMark? = none) {lineEnd : List Char} (hend : EndsLine lineEnd []) :
    ∃ parts more last, ReachesFrom size (joined lines ++ lineEnd) now [] last ∧ PartsTell false parts blocks ∧
      Open { b with parts := parts.reverse ++ b.parts } more last := by
  have hcontainers : b.containers = [] := by simp [containers, hstack]
  have hnone : ∀ mark ∈ blocks.head?.bind Block.listMark?, now.openMark? ≠ some mark := by
    intro mark _ hopen
    rw [hmark] at hopen
    cases hopen
  obtain ⟨parts, more, last, hreach, htell, hopen⟩ := h.reads size hb hready hnone hend Ends.nil
  rw [hcontainers, laidOut_nil, List.append_nil] at hreach
  rw [around_of_stack blocks hstack, addAll_of_stack parts hstack] at hopen
  exact ⟨parts, more, last, hreach, htell, hopen⟩

/-- A source that consists of the lines of blocks is read as parts that tell of the blocks. -/
theorem Blocks.Laid.partsOf (frontMatter : Bool) {lineEnd : List Char} (hend : EndsLine lineEnd []) :
    PartsTell false (Markdown.partsOf frontMatter (joined lines ++ lineEnd)).1 blocks := by
  let size := if frontMatter then some (String.ofList (joined lines ++ lineEnd)).utf8ByteSize else none
  obtain ⟨parts, more, last, hreach, htell, hopen⟩ := h.reaches size settled_empty rfl settled_empty.ready rfl hend
  obtain ⟨line, below, hsplit, hline, hbelow⟩ := h.exists_first hend
  have henter : ∀ taken column, enter ⟨line ++ below, taken, column, 0⟩ [] = (⟨line ++ below, taken, column, 0⟩, 0) :=
    fun _ _ => rfl
  have hcontainers : empty.containers = [] ++ [] := rfl
  have hall : Reaches size (joined lines ++ lineEnd) empty [] last := by
    rw [hsplit] at hreach ⊢
    exact .line hbelow (hline.append below).ne_nil hcontainers henter hreach
  have hparts := (parts_of_reaches hall).trans (congrArg (·.parts) (hopen.closeMany_stack rfl))
  have hpartsOf : (Markdown.partsOf frontMatter (joined lines ++ lineEnd)).1 = parts := by
    have hreverse := congrArg List.reverse hparts
    simp only [empty, List.append_nil, List.reverse_reverse] at hreverse
    exact hreverse
  rw [hpartsOf]
  exact htell

-- ---------------------------------------------------------------------------
-- Blocks
-- ---------------------------------------------------------------------------

theorem Blocks.Laid.toList_renderBlocks : (renderBlocks blocks).toList = joined lines :=
  h.render.joined

/-- **Texts read back.** What is written for blocks that can be laid out on lines is read as these blocks. -/
theorem Blocks.Laid.parseFragment : parseFragment (renderBlocks blocks) = blocks := by
  have hevents := h.partsOf false .last (Markdown.partsOf false (joined lines ++ [])).2
  rw [List.append_nil, ← h.toList_renderBlocks] at hevents
  exact hevents.blocksOf h.apart

end

end Literate.Markdown
