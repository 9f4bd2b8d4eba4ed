import Literate.Proofs.Markdown.EventStream
import Literate.Markdown.Assembly

/-!
# Trees read back from their events

The readers of `Literate.Markdown.Assembly` take any list of events, and each of them stops at the first
ending of its own kind. On a stream that stands for trees this is the ending that was written for it:
what is inside reads away the endings of its own insides, of the same kind or not, before the reader
looks for one. So every lemma here is about events with anything behind them, and says what is left.

* `Takes`: inlines read one after the other. An inline that is written in pieces is read in pieces; what
  is the same are the texts once they are joined (`Inlines.Written.takes`).
* `Puts`: blocks that are read before all else, up to whatever ending (`Blocks.Written.puts`). A run of
  loose inlines ends where no inline begins, which is why neighbouring `plain` blocks must be joined.

Main result: `readBlocks_written`. The events of blocks are read to the last one, and give the blocks with
`plain` blocks joined and groups attached.
-/

namespace Literate.Markdown

variable {ending : Ending} {event : Event} {events rest tail : List Event}
variable {inline : Inline} {inlines : List Inline}

-- ---------------------------------------------------------------------------
-- Joined texts
-- ---------------------------------------------------------------------------

/-- What follows a run of inlines matters for the joined texts only by its own joined texts. -/
theorem joinTexts_append_congr {second third : List Inline} (h : joinTexts second = joinTexts third)
    (first : List Inline) : joinTexts (first ++ second) = joinTexts (first ++ third) := by
  induction first with
  | nil => exact h
  | cons inline first ih =>
    rw [List.cons_append, List.cons_append]
    cases inline with
    | text text => rw [joinTexts, joinTexts, ih]
    | _ => simp only [joinTexts, ih]

/-- Two texts in front are one. -/
theorem joinTexts_text_text (text next : String) (inlines : List Inline) :
    joinTexts (.text text :: .text next :: inlines) = joinTexts (.text (text ++ next) :: inlines) := by
  rw [joinTexts, joinTexts, joinTexts]
  cases joinTexts inlines with
  | nil => rfl
  | cons inline rest =>
    cases inline with
    | text last => simp only [String.append_assoc]
    | _ => rfl

/-- A text in pieces is the text. -/
theorem joinTexts_pieces {pieces : List String} (h : pieces ≠ []) (inlines : List Inline) :
    joinTexts (pieces.map .text ++ inlines) = joinTexts (.text (String.join pieces) :: inlines) := by
  induction pieces with
  | nil => exact absurd rfl h
  | cons piece pieces ih =>
    cases pieces with
    | nil => simp
    | cons next pieces =>
      have hnext := joinTexts_append_congr (ih (List.cons_ne_nil next pieces)) [.text piece]
      rw [List.singleton_append, List.singleton_append, joinTexts_text_text] at hnext
      rw [String.join_cons]
      exact hnext

-- ---------------------------------------------------------------------------
-- Taking inlines
-- ---------------------------------------------------------------------------

theorem Tag.around_append (tag : Tag) (events tail : List Event) :
    tag.around events ++ tail = .start tag :: (events ++ .ends tag.ending :: tail) := by
  simp [Tag.around]

/-- Reading from `events`, one inline after the other, gives `inlines` and leaves `rest`. -/
inductive Takes : List Event → List Inline → List Event → Prop where
  | nil (events : List Event) : Takes events [] events
  | cons {events rest : List Event} {inline : Inline} {inlines : List Inline}
      {next : ShorterRest events} (head : readInline? events = some (inline, next))
      (tail : Takes next.1 inlines rest) : Takes events (inline :: inlines) rest

theorem Takes.append {first second : List Inline} (h : Takes events first rest)
    (hsecond : Takes rest second tail) : Takes events (first ++ second) tail := by
  induction h with
  | nil => exact hsecond
  | cons head _ ih => exact .cons head (ih hsecond)

theorem readInline?_eq_none (h : event.startsInline = false) : readInline? (event :: rest) = none := by
  have hsome := isSome_readInline? event rest
  rw [h] at hsome
  exact Option.isNone_iff_eq_none.1 (by simpa using hsome)

/-- Inlines up to their ending are taken one after the other. -/
theorem collectInlines_of_takes (h : Takes events inlines (.ends ending :: rest)) :
    (collectInlines ending events).1 = inlines ∧ (collectInlines ending events).2.1 = rest := by
  generalize hstop : Event.ends ending :: rest = stop at h
  induction h with
  | nil =>
    subst hstop
    rw [collectInlines, if_pos rfl]
    exact ⟨rfl, rfl⟩
  | @cons events _ inline _ next head _ ih =>
    cases events with
    | nil =>
      rw [readInline?] at head
      cases head
    | cons event events =>
      have hne : event ≠ .ends ending := by
        intro heq
        rw [heq, readInline?_eq_none rfl] at head
        cases head
      rw [collectInlines, if_neg hne, head]
      exact ⟨congrArg (inline :: ·) (ih hstop).1, (ih hstop).2⟩

/-- Inlines before something that is none are taken as one run. -/
theorem collectLooseInlines_of_takes (h : Takes events inlines rest) (hrest : readInline? rest = none) :
    (collectLooseInlines events).1 = inlines ∧ (collectLooseInlines events).2.1 = rest := by
  induction h with
  | nil events =>
    rw [collectLooseInlines]
    split
    · exact ⟨rfl, rfl⟩
    · rename_i heq
      rw [hrest] at heq
      cases heq
  | cons head _ ih =>
    obtain ⟨hinlines, hrest⟩ := ih hrest
    rw [collectLooseInlines]
    split
    · rename_i heq
      rw [head] at heq
      cases heq
    · rename_i heq
      rw [head] at heq
      cases heq
      exact ⟨congrArg (_ :: ·) hinlines, hrest⟩

theorem readInlines_of_takes (h : Takes events inlines (.ends ending :: rest)) :
    (readInlines ending events).1 = attachGroups inlines ∧ (readInlines ending events).2.1 = rest := by
  rw [readInlines]
  exact ⟨congrArg attachGroups (collectInlines_of_takes h).1, (collectInlines_of_takes h).2⟩

-- ---------------------------------------------------------------------------
-- Written inlines
-- ---------------------------------------------------------------------------

/-- What the inline is made from that begins with a tag. -/
def Tag.inline? : Tag → Option (List Inline → Inline)
  | .emphasis => some .emphasis
  | .strong => some .strong
  | .strikethrough => some .strikethrough
  | .link dest title => some (.link dest title)
  | .image dest title => some (.image dest title)
  | _ => none

/-- The inline that an event alone is. -/
def Event.inline? : Event → Option Inline
  | .text s | .line _ s => some (.text s)
  | .code s => some (.code Attr.empty s)
  | .math display s => some (.math display s)
  | .inlineHtml s => some (.html s)
  | .softBreak => some .softBreak
  | .hardBreak => some .hardBreak
  | _ => none

theorem readInline?_leaf (hleaf : event.inline? = some inline) (rest : List Event) :
    readInline? (event :: rest) = some (inline, ⟨rest, Nat.lt_succ_self rest.length⟩) := by
  cases event <;> cases hleaf
  all_goals
    rw [readInline?]

theorem Takes.leaf (hleaf : event.inline? = some inline) (h : Takes events inlines rest) :
    Takes (event :: events) (inline :: inlines) rest :=
  .cons (readInline?_leaf hleaf events) h

theorem readInline?_start {tag : Tag} {make : List Inline → Inline} (hmake : tag.inline? = some make)
    (rest : List Event) : readInline? (.start tag :: rest) =
      some (make (readInlines tag.ending rest).1,
        ⟨(readInlines tag.ending rest).2.1, Nat.lt_succ_of_le (readInlines tag.ending rest).2.2⟩) := by
  cases tag <;> cases hmake
  all_goals
    rw [readInline?]
    rfl

/-- An inline around others is read by reading the others. -/
theorem Takes.around {tag : Tag} {make : List Inline → Inline} (hmake : tag.inline? = some make)
    (h : Takes (events ++ .ends tag.ending :: tail) inlines (.ends tag.ending :: tail)) :
    Takes (tag.around events ++ tail) [make (attachGroups inlines)] tail := by
  obtain ⟨hcontent, hrest⟩ := readInlines_of_takes h
  have hread := readInline?_start hmake (events ++ .ends tag.ending :: tail)
  rw [hcontent] at hread
  rw [Tag.around_append]
  refine .cons hread ?_
  show Takes (readInlines tag.ending (events ++ .ends tag.ending :: tail)).2.1 [] tail
  rw [hrest]
  exact .nil tail

/-- Reading from `events` gives inlines, and once their texts are joined those are `inlines`, whatever
follows. -/
def TakesJoined (events : List Event) (inlines : List Inline) (rest : List Event) : Prop :=
  ∃ read, Takes events read rest ∧ ∀ more, joinTexts (read ++ more) = joinTexts (inlines ++ more)

theorem TakesJoined.readInlines (h : TakesJoined events inlines (.ends ending :: rest)) :
    (readInlines ending events).1 = attachGroups inlines ∧ (readInlines ending events).2.1 = rest := by
  obtain ⟨read, htakes, hjoin⟩ := h
  obtain ⟨hcontent, hrest⟩ := readInlines_of_takes htakes
  have hsame := hjoin []
  rw [List.append_nil, List.append_nil] at hsame
  refine ⟨?_, hrest⟩
  rw [hcontent, attachGroups, hsame, attachGroups]

theorem TakesJoined.of_takes (h : Takes events inlines rest) : TakesJoined events inlines rest :=
  ⟨inlines, h, fun _ => rfl⟩

theorem TakesJoined.append {first second : List Inline} (h : TakesJoined events first rest)
    (hsecond : TakesJoined rest second tail) : TakesJoined events (first ++ second) tail := by
  obtain ⟨read, htakes, hjoin⟩ := h
  obtain ⟨readSecond, htakesSecond, hjoinSecond⟩ := hsecond
  refine ⟨read ++ readSecond, htakes.append htakesSecond, fun more => ?_⟩
  calc joinTexts (read ++ readSecond ++ more)
      = joinTexts (first ++ (readSecond ++ more)) := by rw [List.append_assoc, hjoin]
    _ = joinTexts (first ++ (second ++ more)) := joinTexts_append_congr (hjoinSecond more) first
    _ = joinTexts (first ++ second ++ more) := by rw [List.append_assoc]

theorem TakesJoined.around {tag : Tag} {make : List Inline → Inline} (hmake : tag.inline? = some make)
    (h : TakesJoined (events ++ .ends tag.ending :: tail) inlines (.ends tag.ending :: tail)) :
    TakesJoined (tag.around events ++ tail) [make (attachGroups inlines)] tail := by
  obtain ⟨read, htakes, hjoin⟩ := h
  have hsame := hjoin []
  rw [List.append_nil, List.append_nil] at hsame
  have hattach : attachGroups read = attachGroups inlines := by rw [attachGroups, hsame, attachGroups]
  rw [← hattach]
  exact .of_takes (.around hmake htakes)

theorem takes_texts (pieces : List String) (tail : List Event) :
    Takes (pieces.map .text ++ tail) (pieces.map .text) tail := by
  induction pieces with
  | nil => exact .nil tail
  | cons piece pieces ih => exact .leaf rfl ih

mutual
theorem Inline.Written.takes {inline : Inline} {events : List Event}
    (h : Inline.Written inline events) (tail : List Event) :
    TakesJoined (events ++ tail) [Inline.attach inline] tail := by
  cases h with
  | text pieces ne_nil => exact ⟨_, takes_texts pieces tail, joinTexts_pieces ne_nil⟩
  | code text => exact .of_takes (.leaf rfl (.nil tail))
  | math display text => exact .of_takes (.leaf rfl (.nil tail))
  | html text => exact .of_takes (.leaf rfl (.nil tail))
  | softBreak => exact .of_takes (.leaf rfl (.nil tail))
  | hardBreak => exact .of_takes (.leaf rfl (.nil tail))
  | emphasis inside => exact .around rfl (Inlines.Written.takes inside _)
  | strong inside => exact .around rfl (Inlines.Written.takes inside _)
  | strikethrough inside => exact .around rfl (Inlines.Written.takes inside _)
  | link dest title inside => exact .around rfl (Inlines.Written.takes inside _)
  | image dest title inside => exact .around rfl (Inlines.Written.takes inside _)
/-- Inlines that are written are taken, whatever comes behind them. -/
theorem Inlines.Written.takes {inlines : List Inline} {events : List Event}
    (h : Inlines.Written inlines events) (tail : List Event) :
    TakesJoined (events ++ tail) (attachEach inlines) tail := by
  cases h with
  | nil => exact .of_takes (.nil tail)
  | @cons inline inlines first rest head tailWritten =>
    rw [List.append_assoc]
    exact (Inline.Written.takes head _).append (Inlines.Written.takes tailWritten tail)
end

-- ---------------------------------------------------------------------------
-- Literal text
-- ---------------------------------------------------------------------------

/-- Literal text in pieces of one kind is read as one text. -/
theorem readText_pieces {make : String → Event} (hmake : ∀ s, Event.literalText (make s) = s)
    (hends : ∀ s, make s ≠ .ends ending) (pieces : List String) (tail : List Event) :
    (readText ending Event.literalText (pieces.map make ++ .ends ending :: tail)).1 =
        String.join pieces ∧
      (readText ending Event.literalText (pieces.map make ++ .ends ending :: tail)).2.1 = tail := by
  induction pieces with
  | nil =>
    rw [List.map_nil, List.nil_append, readText, if_pos rfl]
    exact ⟨rfl, rfl⟩
  | cons piece pieces ih =>
    obtain ⟨htext, hrest⟩ := ih
    rw [List.map_cons, List.cons_append, readText, if_neg (hends piece)]
    refine ⟨?_, hrest⟩
    show Event.literalText (make piece) ++ _ = _
    rw [hmake, htext, String.join_cons]

-- ---------------------------------------------------------------------------
-- Tables
-- ---------------------------------------------------------------------------

/-- What is read of a table: its head, its rows, and the events that are left. -/
def tableOf (cells : List Block) (events : List Event) :
    Option (List Block) × List Block × List Event :=
  ((readTable cells events).1, (readTable cells events).2.1, (readTable cells events).2.2.1)

theorem tableOf_start_cell (cells : List Block) (events : List Event) :
    tableOf cells (.start .tableCell :: events) =
      tableOf (.tableCell (readInlines .tableCell events).1 :: cells)
        (readInlines .tableCell events).2.1 := by
  rw [tableOf, readTable]
  rfl

/-- Nothing of a table is told but by the beginnings of its cells, the ends of its rows and its own end. -/
theorem tableOf_other (event : Event) (hcell : event ≠ .start .tableCell)
    (hhead : event ≠ .ends .tableHead) (hrow : event ≠ .ends .tableRow) (hend : event ≠ .ends .table)
    (cells : List Block) (tail : List Event) : tableOf cells (event :: tail) = tableOf cells tail := by
  rw [tableOf, readTable]
  · rfl
  all_goals simp [*]

theorem tableOf_ends_head (cells : List Block) (tail : List Event) :
    tableOf cells (.ends .tableHead :: tail) =
      (some ((tableOf [] tail).1.getD cells.reverse), (tableOf [] tail).2) := by
  rw [tableOf, readTable]
  rfl

theorem tableOf_ends_row (cells : List Block) (tail : List Event) :
    tableOf cells (.ends .tableRow :: tail) =
      ((tableOf [] tail).1, .tableRow cells.reverse :: (tableOf [] tail).2.1, (tableOf [] tail).2.2) := by
  rw [tableOf, readTable]
  rfl

theorem tableOf_ends_table (cells : List Block) (tail : List Event) :
    tableOf cells (.ends .table :: tail) = (none, [], tail) := by
  rw [tableOf, readTable]

/-- The cells of a row are read behind those that have been read. -/
theorem tableOf_cells {written : List Block} (h : Cells.Written written events) (cells : List Block)
    (tail : List Event) :
    tableOf cells (events ++ tail) = tableOf ((attachBlocks written).reverse ++ cells) tail := by
  induction h generalizing cells with
  | nil => rfl
  | @cons content written events rest head _ ih =>
    obtain ⟨hcontent, hrest⟩ :=
      (Inlines.Written.takes head (.ends .tableCell :: (rest ++ tail))).readInlines
    rw [List.append_assoc, Tag.around_append, tableOf_start_cell, Tag.ending, hcontent, hrest, ih]
    simp [attachBlocks, Block.attach, attachInlines]

theorem tableOf_rows {rows : List Block} (h : Rows.Written rows events) (tail : List Event) :
    tableOf [] (events ++ .ends .table :: tail) = (none, attachBlocks rows, tail) := by
  induction h with
  | nil => exact tableOf_ends_table [] tail
  | @cons cells rows events rest head _ ih =>
    rw [List.append_assoc, Tag.around_append, tableOf_other (.start .tableRow) nofun nofun nofun nofun,
      tableOf_cells head, Tag.ending, tableOf_ends_row, ih]
    simp [attachBlocks, Block.attach]

/-- A table is read from its events, the head from the first row. -/
theorem tableOf_written {cells rows : List Block} {head body : List Event}
    (hcells : Cells.Written cells head) (hrows : Rows.Written rows body) (tail : List Event) :
    tableOf [] (Tag.tableHead.around head ++ body ++ .ends .table :: tail) =
      (some (attachBlocks cells), attachBlocks rows, tail) := by
  rw [List.append_assoc, Tag.around_append, tableOf_other (.start .tableHead) nofun nofun nofun nofun,
    tableOf_cells hcells, Tag.ending, tableOf_ends_head, tableOf_rows hrows]
  simp

-- ---------------------------------------------------------------------------
-- Putting blocks
-- ---------------------------------------------------------------------------

/-- Reading from `events`, up to whatever ending, gives `blocks` before what reading from `rest`
gives. -/
def Puts (events : List Event) (blocks : List Block) (rest : List Event) : Prop :=
  ∀ ending, (readBlocks ending events).1 = blocks ++ (readBlocks ending rest).1 ∧
    (readBlocks ending events).2.1 = (readBlocks ending rest).2.1

theorem Puts.nil (events : List Event) : Puts events [] events :=
  fun _ => ⟨rfl, rfl⟩

theorem Puts.append {first second : List Block} (h : Puts events first rest)
    (hsecond : Puts rest second tail) : Puts events (first ++ second) tail := by
  intro ending
  obtain ⟨hblocks, hrest⟩ := h ending
  obtain ⟨hblocksSecond, hrestSecond⟩ := hsecond ending
  rw [hblocks, hblocksSecond, List.append_assoc]
  exact ⟨rfl, hrest.trans hrestSecond⟩

/-- Blocks that are put before their ending are all that is read up to it. -/
theorem Puts.within {blocks : List Block} (h : Puts events blocks (.ends ending :: tail)) :
    (readBlocks (some ending) events).1 = blocks ∧ (readBlocks (some ending) events).2.1 = tail := by
  obtain ⟨hblocks, hrest⟩ := h (some ending)
  have hends : readBlocks (some ending) (.ends ending :: tail) = ([], ⟨tail, by simp⟩) := by
    rw [readBlocks, if_pos (by simp)]
  rw [hends] at hblocks hrest
  exact ⟨by rw [hblocks, List.append_nil], hrest⟩

/-- What the block is made from that begins with a tag and holds inlines. -/
def Tag.textBlock? : Tag → Option (List Inline → Block)
  | .paragraph => some .paragraph
  | .heading level attr => some (.heading level attr)
  | _ => none

/-- What the block is made from that begins with a tag and holds literal text. -/
def Tag.literalBlock? : Tag → Option (String → Block)
  | .codeBlock info => some (.codeBlock ((info.map Attr.ofInfo).getD Attr.empty))
  | .htmlBlock => some .html
  | _ => none

/-- What the block is made from that begins with a tag and holds blocks. -/
def Tag.container? : Tag → Option (List Block → Block)
  | .blockQuote => some .blockQuote
  | .list (some start) => some (.orderedList start)
  | .list none => some .bulletList
  | .item => some .listItem
  | _ => none

theorem puts_textBlock {tag : Tag} {make : List Inline → Block} (hmake : tag.textBlock? = some make)
    (events : List Event) :
    Puts (.start tag :: events) [make (readInlines tag.ending events).1]
      (readInlines tag.ending events).2.1 := by
  intro ending
  cases tag <;> cases hmake
  all_goals
    rw [readBlocks, if_neg (by simp), dif_neg (by simp [Event.startsInline])]
    exact ⟨rfl, rfl⟩

theorem puts_literalBlock {tag : Tag} {make : String → Block} (hmake : tag.literalBlock? = some make)
    (events : List Event) :
    Puts (.start tag :: events) [make (readText tag.ending Event.literalText events).1]
      (readText tag.ending Event.literalText events).2.1 := by
  intro ending
  cases tag <;> cases hmake
  all_goals
    rw [readBlocks, if_neg (by simp), dif_neg (by simp [Event.startsInline])]
    exact ⟨rfl, rfl⟩

theorem puts_container {tag : Tag} {make : List Block → Block} (hmake : tag.container? = some make)
    (events : List Event) :
    Puts (.start tag :: events) [make (readBlocks (some tag.ending) events).1]
      (readBlocks (some tag.ending) events).2.1 := by
  intro ending
  cases tag with
  | list start =>
    cases start <;> cases hmake
    all_goals
      rw [readBlocks, if_neg (by simp), dif_neg (by simp [Event.startsInline])]
      exact ⟨rfl, rfl⟩
  | _ =>
    cases hmake
    all_goals
      rw [readBlocks, if_neg (by simp), dif_neg (by simp [Event.startsInline])]
      exact ⟨rfl, rfl⟩

theorem puts_table (alignments : List Alignment) (events : List Event) :
    Puts (.start (.table alignments) :: events)
      [.table alignments (.tableRow ((tableOf [] events).1.getD [])) (tableOf [] events).2.1]
      (tableOf [] events).2.2 := by
  intro ending
  rw [readBlocks, if_neg (by simp), dif_neg (by simp [Event.startsInline])]
  exact ⟨rfl, rfl⟩

theorem puts_rule (events : List Event) : Puts (.rule :: events) [.rule] events := by
  intro ending
  rw [readBlocks, if_neg (by simp), dif_neg (by simp [Event.startsInline])]
  exact ⟨rfl, rfl⟩

/-- Where an inline begins, a run of loose inlines is put. -/
theorem puts_loose {event : Event} (h : event.startsInline = true) (events : List Event) :
    Puts (event :: events) [.plain (attachGroups (collectLooseInlines (event :: events)).1)]
      (collectLooseInlines (event :: events)).2.1 := by
  intro ending
  have hends : ¬(ending.any fun e => event = .ends e) = true := by
    intro hany
    obtain ⟨e, -, he⟩ := (Option.any_eq_true _ _).1 hany
    rw [of_decide_eq_true he] at h
    cases h
  rw [readBlocks, if_neg hends, dif_pos h]
  exact ⟨rfl, rfl⟩

-- ---------------------------------------------------------------------------
-- Written blocks
-- ---------------------------------------------------------------------------

/-- Whether an inline begins with the first event. -/
def opensInline (events : List Event) : Bool :=
  events.head?.any Event.startsInline

theorem readInline?_eq_none_of_opensInline (h : opensInline events = false) :
    readInline? events = none := by
  cases events with
  | nil => rw [readInline?]
  | cons event events => exact readInline?_eq_none (by simpa [opensInline] using h)

theorem Inline.Written.opensInline (h : Inline.Written inline events) (tail : List Event) :
    Markdown.opensInline (events ++ tail) = true := by
  cases h with
  | text pieces ne_nil =>
    cases pieces with
    | nil => exact absurd rfl ne_nil
    | cons piece pieces => rfl
  | _ => rfl

theorem Inlines.Written.opensInline (h : Inlines.Written inlines events) (hne : inlines ≠ [])
    (tail : List Event) : Markdown.opensInline (events ++ tail) = true := by
  cases h with
  | nil => exact absurd rfl hne
  | cons head _ =>
    rw [List.append_assoc]
    exact head.opensInline _

/-- Only a `plain` block begins with an inline. -/
theorem Block.Written.opensInline {block : Block} (h : Block.Written block events)
    (hplain : Block.isPlain block = false) (tail : List Event) :
    Markdown.opensInline (events ++ tail) = false := by
  cases h with
  | plain => cases hplain
  | _ => rfl

/-- Behind a block that is no neighbour of a `plain` one, no inline begins. -/
theorem Blocks.Written.opensInline {blocks : List Block} (h : Blocks.Written blocks events)
    (hhead : blocks.head?.any Block.isPlain = false) (htail : Markdown.opensInline tail = false) :
    Markdown.opensInline (events ++ tail) = false := by
  cases h with
  | nil => exact htail
  | cons head _ =>
    rw [List.append_assoc]
    exact head.opensInline (by simpa using hhead) _

/-- Loose inlines are put as one `plain` block if no inline begins behind them. -/
theorem puts_plain {content : List Inline} (hne : content ≠ []) (h : Inlines.Written content events)
    (htail : opensInline tail = false) : Puts (events ++ tail) [.plain (attachInlines content)] tail := by
  obtain ⟨read, htakes, hjoin⟩ := h.takes tail
  obtain ⟨hread, hrest⟩ :=
    collectLooseInlines_of_takes htakes (readInline?_eq_none_of_opensInline htail)
  have hsame := hjoin []
  rw [List.append_nil, List.append_nil] at hsame
  have hopens := h.opensInline hne tail
  cases hevents : events ++ tail with
  | nil =>
    rw [hevents] at hopens
    cases hopens
  | cons event others =>
    rw [hevents] at hopens hread hrest
    have hputs := puts_loose (show event.startsInline = true from hopens) others
    rw [hread, hrest, attachGroups, hsame] at hputs
    exact hputs

theorem Inlines.Written.puts {tag : Tag} {make : List Inline → Block}
    (h : Inlines.Written inlines events) (hmake : tag.textBlock? = some make) (tail : List Event) :
    Puts (tag.around events ++ tail) [make (attachInlines inlines)] tail := by
  obtain ⟨hcontent, hrest⟩ := (h.takes (.ends tag.ending :: tail)).readInlines
  have hputs := puts_textBlock hmake (events ++ .ends tag.ending :: tail)
  rw [hcontent, hrest] at hputs
  rw [Tag.around_append]
  exact hputs

theorem puts_pieces {tag : Tag} {make : String → Block} {piece : String → Event}
    (hmake : tag.literalBlock? = some make) (hpiece : ∀ s, Event.literalText (piece s) = s)
    (hends : ∀ s, piece s ≠ .ends tag.ending) (pieces : List String) (tail : List Event) :
    Puts (tag.around (pieces.map piece) ++ tail) [make (String.join pieces)] tail := by
  obtain ⟨htext, hrest⟩ := readText_pieces hpiece hends pieces tail
  have hputs := puts_literalBlock hmake (pieces.map piece ++ .ends tag.ending :: tail)
  rw [htext, hrest] at hputs
  rw [Tag.around_append]
  exact hputs

theorem Puts.around {tag : Tag} {make : List Block → Block} {blocks : List Block}
    (h : Puts (events ++ .ends tag.ending :: tail) blocks (.ends tag.ending :: tail))
    (hmake : tag.container? = some make) : Puts (tag.around events ++ tail) [make blocks] tail := by
  obtain ⟨hblocks, hrest⟩ := h.within
  have hputs := puts_container hmake (events ++ .ends tag.ending :: tail)
  rw [hblocks, hrest] at hputs
  rw [Tag.around_append]
  exact hputs

mutual
theorem Block.Written.puts {block : Block} {events tail : List Event}
    (h : Block.Written block events) (hapart : Block.apart block = true)
    (htail : Block.isPlain block = true → opensInline tail = false) :
    Puts (events ++ tail) [Block.attach block] tail := by
  cases h with
  | plain ne_nil inside => exact puts_plain ne_nil inside (htail rfl)
  | paragraph inside => exact inside.puts rfl tail
  | heading level attr inside => exact inside.puts rfl tail
  | codeBlock info pieces => exact puts_pieces rfl (fun _ => rfl) (fun _ => by simp) pieces tail
  | html pieces => exact puts_pieces rfl (fun _ => rfl) (fun _ => by simp) pieces tail
  | rule => exact puts_rule tail
  | blockQuote inside => exact (Blocks.Written.puts inside hapart rfl).around rfl
  | bulletList inside => exact (Blocks.Written.puts inside hapart rfl).around rfl
  | orderedList start inside => exact (Blocks.Written.puts inside hapart rfl).around rfl
  | listItem inside => exact (Blocks.Written.puts inside hapart rfl).around rfl
  | @table alignments cells rows head body headCells bodyRows =>
    have hputs := puts_table alignments (Tag.tableHead.around head ++ body ++ .ends .table :: tail)
    rw [tableOf_written headCells bodyRows tail] at hputs
    rw [Tag.around_append]
    exact hputs
/-- Blocks that are written, and no two `plain` ones of which are neighbours, are put. -/
theorem Blocks.Written.puts {blocks : List Block} {events tail : List Event}
    (h : Blocks.Written blocks events) (hapart : apart blocks = true)
    (htail : opensInline tail = false) : Puts (events ++ tail) (attachBlocks blocks) tail := by
  cases h with
  | nil => exact .nil tail
  | @cons block blocks first rest head others =>
    rw [apart, Bool.and_eq_true, Bool.and_eq_true, Bool.not_eq_true'] at hapart
    obtain ⟨⟨hblock, hblocks⟩, htouches⟩ := hapart
    have hbehind : Block.isPlain block = true → opensInline (rest ++ tail) = false := by
      intro hplain
      refine others.opensInline ?_ htail
      simpa [touches, hplain] using htouches
    rw [List.append_assoc]
    exact (Block.Written.puts head hblock hbehind).append (Blocks.Written.puts others hblocks htail)
end

/-- **Trees written as events are read back.** Every event of a stream that stands for blocks is read,
and what is read are the blocks with neighbouring `plain` blocks joined and with the groups behind code
spans attached in every list of inlines. -/
theorem readBlocks_written {blocks : List Block} {events : List Event}
    (h : Blocks.Written blocks events) :
    (readBlocks none events).1 = attachBlocks (joinPlains blocks) ∧
      (readBlocks none events).2.1 = [] := by
  have hputs : Puts (events ++ []) (attachBlocks (joinPlains blocks)) [] :=
    h.joinPlains.puts (apart_joinPlains blocks) rfl
  rw [List.append_nil] at hputs
  have hend : readBlocks none [] = ([], ⟨[], Nat.le_refl 0⟩) := by rw [readBlocks]
  obtain ⟨hblocks, hrest⟩ := hputs none
  rw [hend] at hblocks hrest
  exact ⟨by rw [hblocks, List.append_nil], hrest⟩

/-- Lists in lists, emphasis in emphasis, a text in two pieces, two `plain` blocks side by side, and a
group behind code. -/
theorem readBlocks_written_nested :
    (readBlocks none
      [.start (.list none), .start .item, .text "a", .text "b", .code "x", .text "\x7b.c\x7d",
        .start .emphasis, .start .emphasis, .text "d", .ends .emphasis, .ends .emphasis,
        .start (.list none), .start .item, .text "e", .ends .item, .ends .list, .ends .item,
        .ends .list]).1 =
      [.bulletList [.listItem
        [.plain [.text "ab", .code (.ofClasses ["c"]) "x", .emphasis [.emphasis [.text "d"]]],
          .bulletList [.listItem [.plain [.text "e"]]]]]] := by
  have hinner : Block.Written (.bulletList [.listItem [.plain [.text "e"]]]) _ :=
    .bulletList (.cons (.listItem (.cons (.plain nofun
      (.cons (.text ["e"] nofun) .nil)) .nil)) .nil)
  have hemphasis : Inline.Written (.emphasis [.emphasis [.text "d"]]) _ :=
    .emphasis (.cons (.emphasis (.cons (.text ["d"] nofun) .nil)) .nil)
  have hfirst : Block.Written (.plain [.text "ab", .code Attr.empty "x", .text "\x7b.c\x7d"]) _ :=
    .plain nofun (.cons (.text ["a", "b"] nofun) (.cons (.code "x")
      (.cons (.text ["\x7b.c\x7d"] nofun) .nil)))
  have hsecond : Block.Written (.plain [.emphasis [.emphasis [.text "d"]]]) _ :=
    .plain nofun (.cons hemphasis .nil)
  have hitem := Block.Written.listItem (.cons hfirst (.cons hsecond (.cons hinner .nil)))
  obtain ⟨hblocks, -⟩ := readBlocks_written (.cons (.bulletList (.cons hitem .nil)) .nil)
  have hgroup : Attr.splitGroup? "\x7b.c\x7d" = some (.ofClasses ["c"], "") := by cbv
  refine hblocks.trans ?_
  simp [joinPlains, Block.joinPlains, consJoined, attachBlocks, Block.attach, attachInlines,
    attachGroups, attachEach, Inline.attach, joinTexts, moveGroups, hgroup]

end Literate.Markdown
