import Literate.Proofs.Markdown.Assembly
import Literate.Proofs.Markdown.Groups

/-!
# What inlines and events tell

What is read of a text are inlines as its events have them: a text may be in pieces, and the group of attributes
behind a code span is text. They tell the inlines that are found once texts are joined and groups attached
(`Tells`). That can be seen from the front to the back, one inline after the other: a text ends before what is no
text, and a code span takes the group behind it or none.

Events tell of blocks in the same way (`Blocks.Told`), and the reader of events finds these
(`Blocks.Told.blocksOf`).
-/

namespace Literate.Markdown

/-- Inlines as their events have them, and what becomes of them. -/
structure Tells (raws inlines : List Inline) : Prop where
  told : areTold raws = true
  attached : attachInlines raws = inlines

theorem areTold_append (first second : List Inline) :
    areTold (first ++ second) = (areTold first && areTold second) := by
  induction first with
  | nil => rfl
  | cons inline first ih => rw [List.cons_append, areTold, areTold, ih, Bool.and_assoc]

theorem areTold_texts (pieces : List String) : areTold (pieces.map .text) = true := by
  induction pieces with
  | nil => rfl
  | cons piece pieces ih => exact ih

theorem attachEach_append (first second : List Inline) :
    attachEach (first ++ second) = attachEach first ++ attachEach second := by
  induction first with
  | nil => rfl
  | cons inline first ih => rw [List.cons_append, attachEach, attachEach, ih, List.cons_append]

theorem attachEach_texts (pieces : List String) : attachEach (pieces.map .text) = pieces.map .text := by
  induction pieces with
  | nil => rfl
  | cons piece pieces ih => exact congrArg (Inline.text piece :: ·) ih

theorem attach_code (attr : Attr) (text : String) : Inline.attach (.code attr text) = .code attr text := rfl

namespace Tells

variable {raws inlines : List Inline} {pieces : List String}

theorem opensText_eq (h : Tells raws inlines) : opensText (joinTexts (attachEach raws)) = opensText inlines := by
  rw [← h.attached, attachInlines, attachGroups, opensText_moveGroups]

theorem nil : Tells [] [] :=
  ⟨rfl, rfl⟩

/-- What is neither text nor code stays as it is beside others. -/
theorem other {raw inline : Inline} (no_text : Inline.isText raw = false) (no_code : ∀ attr text, raw ≠ .code attr text)
    (told : Inline.isTold raw = true) (attached : Inline.attach raw = inline) (h : Tells raws inlines) :
    Tells (raw :: raws) (inline :: inlines) := by
  refine ⟨by rw [areTold, told, h.told]; rfl, ?_⟩
  have hmove : moveGroups (joinTexts (inline :: attachEach raws)) = inline :: inlines := by
    subst attached
    rw [← h.attached, attachInlines, attachGroups]
    cases raw with
    | text text => cases no_text
    | code attr text => exact absurd rfl (no_code attr text)
    | _ =>
      rw [Inline.attach, joinTexts, moveGroups]
      all_goals simp
  rw [attachInlines, attachGroups, attachEach, attached, hmove]

/-- A text in pieces is told by the pieces, up to what is no text. -/
theorem texts (hne : pieces ≠ []) (h : Tells raws inlines) (hends : opensText inlines = false) :
    Tells (pieces.map .text ++ raws) (.text (String.join pieces) :: inlines) := by
  refine ⟨by rw [areTold_append, areTold_texts, h.told]; rfl, ?_⟩
  have hjoin : joinTexts (.text (String.join pieces) :: attachEach raws) =
      .text (String.join pieces) :: joinTexts (attachEach raws) := by
    rw [joinTexts]
    split
    · rename_i heq
      have hopens := h.opensText_eq
      rw [heq, hends] at hopens
      cases hopens
    · rfl
  rw [attachInlines, attachGroups, attachEach_append, attachEach_texts, joinTexts_pieces hne, hjoin, moveGroups,
    ← attachGroups, ← attachInlines, h.attached]
  simp

/-- A code span that no group follows keeps no attributes. -/
theorem code (text : String) (h : Tells raws inlines)
    (hplain : ∀ next later, inlines = .text next :: later → Attr.splitGroup? next = none) :
    Tells (.code Attr.empty text :: raws) (.code Attr.empty text :: inlines) := by
  refine ⟨by rw [areTold, h.told]; rfl, ?_⟩
  have hmove : moveGroups (.code Attr.empty text :: joinTexts (attachEach raws)) =
      .code Attr.empty text :: inlines := by
    have hinlines : moveGroups (joinTexts (attachEach raws)) = inlines := h.attached
    rw [← hinlines] at hplain ⊢
    cases hjoined : joinTexts (attachEach raws) with
    | nil => rfl
    | cons inline later =>
      rw [hjoined] at hplain
      cases inline with
      | text next =>
        have hnone := hplain next _ (by rw [moveGroups]; simp)
        rw [moveGroups, hnone, moveGroups]
        simp
      | _ =>
        rw [moveGroups]
        simp
  rw [attachInlines, attachGroups, attachEach, attach_code, joinTexts, hmove]
  simp

/-- A group that follows a code span is taken by it. -/
theorem group (text : String) {attr : Attr} (hne : pieces ≠ [])
    (hgroup : ∀ next, Attr.splitGroup? (String.join pieces ++ next) = some (attr, next)) (h : Tells raws inlines)
    (hnext : ∀ next later, inlines = .text next :: later → next ≠ "") :
    Tells (.code Attr.empty text :: (pieces.map .text ++ raws)) (.code attr text :: inlines) := by
  refine ⟨by rw [areTold, areTold_append, areTold_texts, h.told]; rfl, ?_⟩
  have hmove : moveGroups (.code Attr.empty text :: joinTexts (.text (String.join pieces) :: attachEach raws)) =
      .code attr text :: inlines := by
    have hinlines : moveGroups (joinTexts (attachEach raws)) = inlines := h.attached
    rw [← hinlines] at hnext ⊢
    rw [joinTexts]
    split
    · rename_i next later hjoined
      rw [hjoined] at hnext ⊢
      have hsome : next ≠ "" := hnext next _ (by rw [moveGroups]; simp)
      rw [moveGroups, hgroup, moveGroups]
      · simp [hsome]
      · simp
    · rename_i later hjoined
      have hwhole := hgroup ""
      rw [String.append_empty] at hwhole
      rw [moveGroups, hwhole]
      rfl
  rw [attachInlines, attachGroups, attachEach, attach_code, joinTexts, attachEach_append, attachEach_texts,
    joinTexts_pieces hne, hmove]
  simp

end Tells

-- ---------------------------------------------------------------------------
-- Events
-- ---------------------------------------------------------------------------

/-- Events that say of inlines all but where the groups belong. -/
def Inlines.Told (inlines : List Inline) (events : List Event) : Prop :=
  ∃ raws, Inlines.Written raws events ∧ attachInlines raws = inlines

/-- Events that say of a block all but where the groups in it belong. -/
def Block.Told (block : Block) (events : List Event) : Prop :=
  ∃ raw, Block.Written raw events ∧ Block.attach raw = block

/-- Events that say of blocks all but where the groups in them belong. -/
def Blocks.Told (blocks : List Block) (events : List Event) : Prop :=
  ∃ raws, Blocks.Written raws events ∧ attachBlocks raws = blocks

theorem Tells.events {raws inlines : List Inline} (h : Tells raws inlines) :
    Inlines.Told inlines (eventsOfInlines raws) :=
  ⟨raws, Inlines.written_events h.told, h.attached⟩

section

variable {inlines : List Inline} {block : Block} {blocks : List Block} {events first rest : List Event}

theorem Blocks.Told.nil : Blocks.Told [] [] :=
  ⟨[], .nil, rfl⟩

theorem Blocks.Told.cons (head : Block.Told block first) (tail : Blocks.Told blocks rest) :
    Blocks.Told (block :: blocks) (first ++ rest) := by
  obtain ⟨raw, hraw, rfl⟩ := head
  obtain ⟨raws, hraws, rfl⟩ := tail
  exact ⟨raw :: raws, .cons hraw hraws, rfl⟩

namespace Block.Told

theorem plain (ne_nil : inlines ≠ []) (inside : Inlines.Told inlines events) : Block.Told (.plain inlines) events := by
  obtain ⟨raws, hraws, rfl⟩ := inside
  have hne : raws ≠ [] := by
    rintro rfl
    exact ne_nil rfl
  exact ⟨.plain raws, .plain hne hraws, rfl⟩

theorem paragraph (inside : Inlines.Told inlines events) :
    Block.Told (.paragraph inlines) (Tag.paragraph.around events) := by
  obtain ⟨raws, hraws, rfl⟩ := inside
  exact ⟨.paragraph raws, .paragraph hraws, rfl⟩

theorem heading (level : UInt8) (attr : Attr) (inside : Inlines.Told inlines events) :
    Block.Told (.heading level attr inlines) ((Tag.heading level attr).around events) := by
  obtain ⟨raws, hraws, rfl⟩ := inside
  exact ⟨.heading level attr raws, .heading level attr hraws, rfl⟩

theorem codeBlock (info : Option String) (pieces : List String) :
    Block.Told (.codeBlock ((info.map Attr.ofInfo).getD Attr.empty) (String.join pieces))
      ((Tag.codeBlock info).around (pieces.map .text)) :=
  ⟨_, .codeBlock info pieces, rfl⟩

theorem rule : Block.Told .rule [.rule] :=
  ⟨.rule, .rule, rfl⟩

theorem blockQuote (inside : Blocks.Told blocks events) :
    Block.Told (.blockQuote blocks) (Tag.blockQuote.around events) := by
  obtain ⟨raws, hraws, rfl⟩ := inside
  exact ⟨.blockQuote raws, .blockQuote hraws, rfl⟩

theorem bulletList (inside : Blocks.Told blocks events) :
    Block.Told (.bulletList blocks) ((Tag.list none).around events) := by
  obtain ⟨raws, hraws, rfl⟩ := inside
  exact ⟨.bulletList raws, .bulletList hraws, rfl⟩

theorem orderedList (start : UInt64) (inside : Blocks.Told blocks events) :
    Block.Told (.orderedList start blocks) ((Tag.list (some start)).around events) := by
  obtain ⟨raws, hraws, rfl⟩ := inside
  exact ⟨.orderedList start raws, .orderedList start hraws, rfl⟩

theorem listItem (inside : Blocks.Told blocks events) :
    Block.Told (.listItem blocks) (Tag.item.around events) := by
  obtain ⟨raws, hraws, rfl⟩ := inside
  exact ⟨.listItem raws, .listItem hraws, rfl⟩

/-- The cells of a table stand by themselves in its rows. -/
theorem table (alignments : List Alignment) {cells rows : List Block} {head body : List Event}
    (headCells : ∃ raws, Cells.Written raws head ∧ attachBlocks raws = cells)
    (bodyRows : ∃ raws, Rows.Written raws body ∧ attachBlocks raws = rows) :
    Block.Told (.table alignments (.tableRow cells) rows)
      ((Tag.table alignments).around (Tag.tableHead.around head ++ body)) := by
  obtain ⟨rawCells, hcells, rfl⟩ := headCells
  obtain ⟨rawRows, hrows, rfl⟩ := bodyRows
  exact ⟨.table alignments (.tableRow rawCells) rawRows, .table alignments hcells hrows, rfl⟩

end Block.Told

end

-- ---------------------------------------------------------------------------
-- Blocks that are told
-- ---------------------------------------------------------------------------

theorem isPlain_attach (block : Block) : Block.isPlain (Block.attach block) = Block.isPlain block := by
  cases block <;> rfl

theorem touches_attach (block : Block) (blocks : List Block) :
    touches (Block.attach block) (attachBlocks blocks) = touches block blocks := by
  rw [touches, touches, isPlain_attach]
  cases blocks with
  | nil => rfl
  | cons next blocks =>
    rw [attachBlocks, List.head?_cons, List.head?_cons, Option.any_some, Option.any_some, isPlain_attach]

mutual
theorem Block.apart_attach (block : Block) : Block.apart (Block.attach block) = Block.apart block := by
  cases block with
  | blockQuote content => exact apart_attachBlocks content
  | orderedList start items => exact apart_attachBlocks items
  | bulletList items => exact apart_attachBlocks items
  | listItem content => exact apart_attachBlocks content
  | div attr content => exact apart_attachBlocks content
  | _ => rfl
/-- Whether `plain` blocks are neighbours does not depend on the groups in them. -/
theorem apart_attachBlocks (blocks : List Block) : apart (attachBlocks blocks) = apart blocks := by
  cases blocks with
  | nil => rfl
  | cons block blocks =>
    rw [attachBlocks, apart, apart, Block.apart_attach block, apart_attachBlocks blocks, touches_attach]
end

/-- Blocks are read from the events that tell of them. -/
theorem Blocks.Told.blocksOf {blocks : List Block} {events : List Event} (h : Blocks.Told blocks events)
    (happart : apart blocks = true) : Markdown.blocksOf events = blocks := by
  obtain ⟨raws, hraws, rfl⟩ := h
  rw [apart_attachBlocks] at happart
  have hputs : Puts (events ++ []) (attachBlocks raws) [] := hraws.puts happart rfl
  obtain ⟨hblocks, -⟩ := hputs none
  have hend : readBlocks none [] = ([], ⟨[], Nat.le_refl 0⟩) := by rw [Markdown.readBlocks]
  rwa [List.append_nil, hend, List.append_nil] at hblocks

end Literate.Markdown
