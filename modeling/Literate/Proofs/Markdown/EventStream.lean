import Literate.Markdown.Assembly
import Mathlib

/-!
# Trees as streams of events

What a reader of events is given is a tree written down: what begins, what is inside, what ends.
`Blocks.Written` relates trees to the streams that stand for them. A tree has many: a text comes in one
piece or in several, a code block keeps of its info string only what it means, and a `plain` block, the
text of a tight list, leaves no trace of its own but its content.

For the same reason a stream may stand for several trees. Neighbouring `plain` blocks are written as one
block would be that holds the inlines of both (`joinPlains`), and a group of attributes behind a code
span is text. So what can be asked of a reader is the tree with its `plain` blocks joined and its groups
attached (`attachBlocks`).

Main results:

* `Inlines.written_events`: the events that inlines without attributes have are one way to write them.
* `Blocks.Written.joinPlains`: joining `plain` blocks does not change what is written.
* `apart_joinPlains`: after it no two of them are neighbours, at any depth.
-/

namespace Literate.Markdown

-- ---------------------------------------------------------------------------
-- Writing
-- ---------------------------------------------------------------------------

mutual
/-- An inline, and events that stand for it. -/
inductive Inline.Written : Inline → List Event → Prop where
  | text (pieces : List String) (ne_nil : pieces ≠ []) :
      Inline.Written (.text (String.join pieces)) (pieces.map .text)
  | code (text : String) : Inline.Written (.code Attr.empty text) [.code text]
  | math (display : Bool) (text : String) : Inline.Written (.math display text) [.math display text]
  | html (text : String) : Inline.Written (.html text) [.inlineHtml text]
  | softBreak : Inline.Written .softBreak [.softBreak]
  | hardBreak : Inline.Written .hardBreak [.hardBreak]
  | emphasis {content : List Inline} {events : List Event} (inside : Inlines.Written content events) :
      Inline.Written (.emphasis content) (Tag.emphasis.around events)
  | strong {content : List Inline} {events : List Event} (inside : Inlines.Written content events) :
      Inline.Written (.strong content) (Tag.strong.around events)
  | strikethrough {content : List Inline} {events : List Event}
      (inside : Inlines.Written content events) :
      Inline.Written (.strikethrough content) (Tag.strikethrough.around events)
  | link (dest title : String) {content : List Inline} {events : List Event}
      (inside : Inlines.Written content events) :
      Inline.Written (.link dest title content) ((Tag.link dest title).around events)
  | image (dest title : String) {content : List Inline} {events : List Event}
      (inside : Inlines.Written content events) :
      Inline.Written (.image dest title content) ((Tag.image dest title).around events)
/-- Inlines, and events that stand for them one after another. -/
inductive Inlines.Written : List Inline → List Event → Prop where
  | nil : Inlines.Written [] []
  | cons {inline : Inline} {inlines : List Inline} {first rest : List Event}
      (head : Inline.Written inline first) (tail : Inlines.Written inlines rest) :
      Inlines.Written (inline :: inlines) (first ++ rest)
end

/-- The cells of a row, and events that stand for them. -/
inductive Cells.Written : List Block → List Event → Prop where
  | nil : Cells.Written [] []
  | cons {content : List Inline} {cells : List Block} {events rest : List Event}
      (head : Inlines.Written content events) (tail : Cells.Written cells rest) :
      Cells.Written (.tableCell content :: cells) (Tag.tableCell.around events ++ rest)

/-- The rows of a table below its head, and events that stand for them. -/
inductive Rows.Written : List Block → List Event → Prop where
  | nil : Rows.Written [] []
  | cons {cells rows : List Block} {events rest : List Event} (head : Cells.Written cells events)
      (tail : Rows.Written rows rest) :
      Rows.Written (.tableRow cells :: rows) (Tag.tableRow.around events ++ rest)

mutual
/-- A block, and events that stand for it. -/
inductive Block.Written : Block → List Event → Prop where
  | plain {content : List Inline} {events : List Event} (ne_nil : content ≠ [])
      (inside : Inlines.Written content events) : Block.Written (.plain content) events
  | paragraph {content : List Inline} {events : List Event}
      (inside : Inlines.Written content events) :
      Block.Written (.paragraph content) (Tag.paragraph.around events)
  | heading (level : UInt8) (attr : Attr) {content : List Inline} {events : List Event}
      (inside : Inlines.Written content events) :
      Block.Written (.heading level attr content) ((Tag.heading level attr).around events)
  | codeBlock (info : Option String) (pieces : List String) :
      Block.Written (.codeBlock ((info.map Attr.ofInfo).getD Attr.empty) (String.join pieces))
        ((Tag.codeBlock info).around (pieces.map .text))
  | html (pieces : List String) :
      Block.Written (.html (String.join pieces)) (Tag.htmlBlock.around (pieces.map .html))
  | rule : Block.Written .rule [.rule]
  | blockQuote {content : List Block} {events : List Event} (inside : Blocks.Written content events) :
      Block.Written (.blockQuote content) (Tag.blockQuote.around events)
  | bulletList {items : List Block} {events : List Event} (inside : Blocks.Written items events) :
      Block.Written (.bulletList items) ((Tag.list none).around events)
  | orderedList (start : UInt64) {items : List Block} {events : List Event}
      (inside : Blocks.Written items events) :
      Block.Written (.orderedList start items) ((Tag.list (some start)).around events)
  | listItem {content : List Block} {events : List Event} (inside : Blocks.Written content events) :
      Block.Written (.listItem content) (Tag.item.around events)
  | table (alignments : List Alignment) {cells rows : List Block} {head body : List Event}
      (headCells : Cells.Written cells head) (bodyRows : Rows.Written rows body) :
      Block.Written (.table alignments (.tableRow cells) rows)
        ((Tag.table alignments).around (Tag.tableHead.around head ++ body))
/-- Blocks, and events that stand for them one after another. -/
inductive Blocks.Written : List Block → List Event → Prop where
  | nil : Blocks.Written [] []
  | cons {block : Block} {blocks : List Block} {first rest : List Event}
      (head : Block.Written block first) (tail : Blocks.Written blocks rest) :
      Blocks.Written (block :: blocks) (first ++ rest)
end

theorem Inlines.Written.append {first second : List Inline} {events later : List Event}
    (h : Inlines.Written first events) (hlater : Inlines.Written second later) :
    Inlines.Written (first ++ second) (events ++ later) := by
  induction first generalizing events with
  | nil =>
    cases h
    exact hlater
  | cons inline first ih =>
    cases h with
    | cons head tail =>
      rw [List.append_assoc]
      exact .cons head (ih tail)

mutual
/-- Whether the events of an inline say all of it: attributes, of code or of a run, have none. -/
def Inline.isTold : Inline → Bool
  | .code attr _ => attr = Attr.empty
  | .emphasis content | .strong content | .strikethrough content | .link _ _ content
  | .image _ _ content => areTold content
  | .span .. => false
  | .text _ | .math .. | .html _ | .softBreak | .hardBreak => true
/-- Whether the events of inlines say all of them. -/
def areTold : List Inline → Bool
  | [] => true
  | inline :: inlines => Inline.isTold inline && areTold inlines
end

mutual
theorem Inline.written_events {inline : Inline} (h : Inline.isTold inline = true) :
    Inline.Written inline inline.events := by
  cases inline with
  | text text =>
    have hone := Inline.Written.text [text] (List.cons_ne_nil text [])
    rw [Inline.events]
    simpa using hone
  | code attr text =>
    have hattr : attr = Attr.empty := by simpa [Inline.isTold] using h
    rw [hattr]
    exact .code text
  | emphasis content => exact .emphasis (Inlines.written_events h)
  | strong content => exact .strong (Inlines.written_events h)
  | strikethrough content => exact .strikethrough (Inlines.written_events h)
  | link dest title content => exact .link dest title (Inlines.written_events h)
  | image dest title alt => exact .image dest title (Inlines.written_events h)
  | math display text => exact .math display text
  | span attr content => cases h
  | html text => exact .html text
  | softBreak => exact .softBreak
  | hardBreak => exact .hardBreak
/-- Inlines without attributes are written by their own events. -/
theorem Inlines.written_events {inlines : List Inline} (h : areTold inlines = true) :
    Inlines.Written inlines (eventsOfInlines inlines) := by
  cases inlines with
  | nil => exact .nil
  | cons inline inlines =>
    rw [areTold, Bool.and_eq_true] at h
    exact .cons (Inline.written_events h.1) (Inlines.written_events h.2)
end

-- ---------------------------------------------------------------------------
-- Joining
-- ---------------------------------------------------------------------------

def Block.isPlain : Block → Bool
  | .plain _ => true
  | _ => false

/-- Puts a block in front of others, and makes one of two neighbouring `plain` blocks. -/
def consJoined : Block → List Block → List Block
  | .plain content, .plain next :: blocks => .plain (content ++ next) :: blocks
  | block, blocks => block :: blocks

mutual
/-- The block with neighbouring `plain` blocks joined inside it, at any depth. -/
def Block.joinPlains : Block → Block
  | .blockQuote content => .blockQuote (joinPlains content)
  | .orderedList start items => .orderedList start (joinPlains items)
  | .bulletList items => .bulletList (joinPlains items)
  | .listItem content => .listItem (joinPlains content)
  | .div attr content => .div attr (joinPlains content)
  | block => block
/-- The blocks with neighbouring `plain` blocks joined, at any depth. -/
def joinPlains : List Block → List Block
  | [] => []
  | block :: blocks => consJoined (Block.joinPlains block) (joinPlains blocks)
end

/-- Whether two `plain` blocks come one after the other. -/
def touches (block : Block) (blocks : List Block) : Bool :=
  Block.isPlain block && blocks.head?.any Block.isPlain

mutual
/-- Whether no two `plain` blocks inside a block are neighbours. -/
def Block.apart : Block → Bool
  | .blockQuote content | .orderedList _ content | .bulletList content | .listItem content
  | .div _ content => apart content
  | _ => true
/-- Whether no two `plain` blocks are neighbours, at any depth. -/
def apart : List Block → Bool
  | [] => true
  | block :: blocks => Block.apart block && apart blocks && !touches block blocks
end

theorem Blocks.Written.consJoined {block : Block} {blocks : List Block} {first rest : List Event}
    (head : Block.Written block first) (tail : Blocks.Written blocks rest) :
    Blocks.Written (consJoined block blocks) (first ++ rest) := by
  unfold Markdown.consJoined
  split
  · cases head with
    | plain ne_nil inside =>
      cases tail with
      | cons next tail =>
        cases next with
        | plain _ insideNext =>
          rw [← List.append_assoc]
          refine .cons (.plain ?_ (inside.append insideNext)) tail
          exact fun h => ne_nil (List.append_eq_nil_iff.1 h).1
  · exact .cons head tail

mutual
/-- A block and the same block with its `plain` blocks joined are written alike. -/
theorem Block.Written.joinPlains {block : Block} {events : List Event}
    (h : Block.Written block events) : Block.Written (Block.joinPlains block) events := by
  cases h with
  | plain ne_nil inside => exact .plain ne_nil inside
  | paragraph inside => exact .paragraph inside
  | heading level attr inside => exact .heading level attr inside
  | codeBlock info pieces => exact .codeBlock info pieces
  | html pieces => exact .html pieces
  | rule => exact .rule
  | blockQuote inside => exact .blockQuote (Blocks.Written.joinPlains inside)
  | bulletList inside => exact .bulletList (Blocks.Written.joinPlains inside)
  | orderedList start inside => exact .orderedList start (Blocks.Written.joinPlains inside)
  | listItem inside => exact .listItem (Blocks.Written.joinPlains inside)
  | table alignments headCells bodyRows => exact .table alignments headCells bodyRows
/-- Joining `plain` blocks does not change what is written. -/
theorem Blocks.Written.joinPlains {blocks : List Block} {events : List Event}
    (h : Blocks.Written blocks events) : Blocks.Written (joinPlains blocks) events := by
  cases h with
  | nil => exact .nil
  | cons head tail => exact .consJoined (Block.Written.joinPlains head) (Blocks.Written.joinPlains tail)
end

theorem apart_consJoined {block : Block} {blocks : List Block} (hblock : Block.apart block = true)
    (hblocks : apart blocks = true) : apart (consJoined block blocks) = true := by
  unfold consJoined
  split
  · -- whether the block behind may follow does not depend on the inlines that are joined
    simpa [apart, Block.apart, touches, Block.isPlain] using hblocks
  · rename_i hne
    have htouches : touches block blocks = false := by
      cases block with
      | plain content =>
        cases blocks with
        | nil => rfl
        | cons next blocks =>
          cases next with
          | plain others => exact absurd rfl (hne content others blocks rfl)
          | _ => rfl
      | _ => rfl
    rw [apart, hblock, hblocks, htouches]
    rfl

mutual
theorem Block.apart_joinPlains (block : Block) : Block.apart (Block.joinPlains block) = true := by
  cases block with
  | blockQuote content => exact apart_joinPlains content
  | orderedList start items => exact apart_joinPlains items
  | bulletList items => exact apart_joinPlains items
  | listItem content => exact apart_joinPlains content
  | div attr content => exact apart_joinPlains content
  | _ => rfl
/-- Where `plain` blocks have been joined, no two of them are neighbours, at any depth. -/
theorem apart_joinPlains (blocks : List Block) : apart (joinPlains blocks) = true := by
  cases blocks with
  | nil => rfl
  | cons block blocks =>
    exact apart_consJoined (Block.apart_joinPlains block) (apart_joinPlains blocks)
end

-- ---------------------------------------------------------------------------
-- Attaching
-- ---------------------------------------------------------------------------

mutual
/-- The inline with the groups inside it attached, at any depth. -/
def Inline.attach : Inline → Inline
  | .emphasis content => .emphasis (attachGroups (attachEach content))
  | .strong content => .strong (attachGroups (attachEach content))
  | .strikethrough content => .strikethrough (attachGroups (attachEach content))
  | .link dest title content => .link dest title (attachGroups (attachEach content))
  | .image dest title alt => .image dest title (attachGroups (attachEach alt))
  | .span attr content => .span attr (attachGroups (attachEach content))
  | inline => inline
/-- The inlines with the groups inside each of them attached. -/
def attachEach : List Inline → List Inline
  | [] => []
  | inline :: inlines => Inline.attach inline :: attachEach inlines
end

/-- The inlines with every list of them attached, this one and those inside it. -/
def attachInlines (inlines : List Inline) : List Inline :=
  attachGroups (attachEach inlines)

mutual
/-- The block with every list of inlines inside it attached. -/
def Block.attach : Block → Block
  | .plain content => .plain (attachInlines content)
  | .paragraph content => .paragraph (attachInlines content)
  | .heading level attr content => .heading level attr (attachInlines content)
  | .tableCell content => .tableCell (attachInlines content)
  | .blockQuote content => .blockQuote (attachBlocks content)
  | .orderedList start items => .orderedList start (attachBlocks items)
  | .bulletList items => .bulletList (attachBlocks items)
  | .listItem content => .listItem (attachBlocks content)
  | .tableRow cells => .tableRow (attachBlocks cells)
  | .div attr content => .div attr (attachBlocks content)
  | .table alignments head rows => .table alignments (Block.attach head) (attachBlocks rows)
  | block => block
/-- The blocks with every list of inlines inside them attached. -/
def attachBlocks : List Block → List Block
  | [] => []
  | block :: blocks => Block.attach block :: attachBlocks blocks
end

end Literate.Markdown
