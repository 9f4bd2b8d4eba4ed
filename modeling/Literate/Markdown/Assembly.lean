import Literate.Markdown.Event
import Literate.Markdown.Groups

/-!
# Trees from events

`blocksOf` puts the blocks of a document together from its events. Any list of events will do: an
ending without beginning is passed over, and what does not end goes on to the last event. Every reader
answers with the events that it leaves, and the type says that these are fewer, or at least not more,
than it was given.

The items of a tight list hold inlines without a paragraph around them; a run of such events becomes
one `Block.plain`.
-/

namespace Literate.Markdown

/-- The events behind some events: not more than those. -/
abbrev Rest (events : List Event) := { rest : List Event // rest.length ≤ events.length }

/-- The events behind some events, at least one of which was read. -/
abbrev ShorterRest (events : List Event) := { rest : List Event // rest.length < events.length }

def Event.startsInline : Event → Bool
  | .text _ | .line .. | .code _ | .math .. | .inlineHtml _ | .softBreak | .hardBreak => true
  | .start .emphasis | .start .strong | .start .strikethrough => true
  | .start (.link ..) | .start (.image ..) => true
  | _ => false

-- ---------------------------------------------------------------------------
-- Inlines
-- ---------------------------------------------------------------------------

mutual
/-- Reads the inline that begins with the first event, if one does. -/
def readInline? (events : List Event) : Option (Inline × ShorterRest events) :=
  match events with
  | [] => none
  | event :: rest =>
    let leaf (inline : Inline) : Option (Inline × ShorterRest (event :: rest)) :=
      some (inline, ⟨rest, by simp⟩)
    let node (ending : Ending) (make : List Inline → Inline) :
        Option (Inline × ShorterRest (event :: rest)) :=
      let (content, rest') := readInlines ending rest
      some (make content, ⟨rest'.1, Nat.lt_succ_of_le rest'.2⟩)
    match event with
    | .text text | .line _ text => leaf (.text text)
    | .code text => leaf (.code Attr.empty text)
    | .math display text => leaf (.math display text)
    | .inlineHtml text => leaf (.html text)
    | .softBreak => leaf .softBreak
    | .hardBreak => leaf .hardBreak
    | .start .emphasis => node .emphasis .emphasis
    | .start .strong => node .strong .strong
    | .start .strikethrough => node .strikethrough .strikethrough
    | .start (.link dest title) => node .link (.link dest title)
    | .start (.image dest title) => node .image (.image dest title)
    | _ => none
termination_by 3 * events.length
/-- Reads inlines up to their ending, and passes over everything else. -/
def readInlines (ending : Ending) (events : List Event) : List Inline × Rest events :=
  let (inlines, rest) := collectInlines ending events
  (attachGroups inlines, rest)
termination_by 3 * events.length + 2
/-- Reads inlines up to their ending as they stand. -/
def collectInlines (ending : Ending) (events : List Event) : List Inline × Rest events :=
  match events with
  | [] => ([], ⟨[], by simp⟩)
  | event :: rest =>
    if event = .ends ending then ([], ⟨rest, by simp⟩)
    else
      match readInline? (event :: rest) with
      | some (inline, rest') =>
        let (inlines, rest'') := collectInlines ending rest'.1
        (inline :: inlines, ⟨rest''.1, Nat.le_trans rest''.2 (Nat.le_of_lt rest'.2)⟩)
      | none =>
        let (inlines, rest') := collectInlines ending rest
        (inlines, ⟨rest'.1, Nat.le_succ_of_le rest'.2⟩)
termination_by 3 * events.length + 1
decreasing_by
  all_goals simp only [List.length_cons]
  · omega
  · have := rest'.2
    simp only [List.length_cons] at this
    omega
  · omega
end

/-- Reads inlines as long as one begins. -/
def collectLooseInlines (events : List Event) : List Inline × Rest events :=
  match readInline? events with
  | none => ([], ⟨events, Nat.le_refl _⟩)
  | some (inline, rest) =>
    let (inlines, rest') := collectLooseInlines rest.1
    (inline :: inlines, ⟨rest'.1, Nat.le_trans rest'.2 (Nat.le_of_lt rest.2)⟩)
termination_by events.length
decreasing_by exact rest.2

/-- An inline is read exactly where one begins. -/
theorem isSome_readInline? (event : Event) (events : List Event) :
    (readInline? (event :: events)).isSome = event.startsInline := by
  unfold readInline? Event.startsInline
  cases event with
  | start tag => cases tag <;> rfl
  | _ => rfl

/-- A run of loose inlines takes at least the event it begins with. -/
theorem length_collectLooseInlines {event : Event} {events : List Event}
    (h : event.startsInline = true) :
    (collectLooseInlines (event :: events)).2.1.length ≤ events.length := by
  unfold collectLooseInlines
  split
  · rename_i heq
    have := isSome_readInline? event events
    simp [heq, h] at this
  · rename_i inline rest _
    have := rest.2
    have := (collectLooseInlines rest.1).2.2
    simp only [List.length_cons] at *
    omega

-- ---------------------------------------------------------------------------
-- Literal text
-- ---------------------------------------------------------------------------

def Event.literalText : Event → String
  | .text s | .line _ s | .html s => s
  | _ => ""

/-- What `textOf` says of the events up to an ending. -/
def readText (ending : Ending) (textOf : Event → String) :
    (events : List Event) → String × Rest events
  | [] => ("", ⟨[], by simp⟩)
  | event :: rest =>
    if event = .ends ending then ("", ⟨rest, by simp⟩)
    else
      let (text, rest') := readText ending textOf rest
      (textOf event ++ text, ⟨rest'.1, Nat.le_succ_of_le rest'.2⟩)

-- ---------------------------------------------------------------------------
-- Tables
-- ---------------------------------------------------------------------------

/-- The head and the rows of a table up to its end, given the cells so far of the row that is being
read, last one first. Of several heads the last counts. -/
def readTable (cells : List Block) (events : List Event) :
    Option (List Block) × List Block × Rest events :=
  match events with
  | [] => (none, [], ⟨[], by simp⟩)
  | event :: rest =>
    let skip (r : Option (List Block) × List Block × Rest rest) :
        Option (List Block) × List Block × Rest (event :: rest) :=
      (r.1, r.2.1, ⟨r.2.2.1, Nat.le_succ_of_le r.2.2.2⟩)
    match event with
    | .ends .table => (none, [], ⟨rest, by simp⟩)
    | .ends .tableHead =>
      let (head, rows, rest') := skip (readTable [] rest)
      (some (head.getD cells.reverse), rows, rest')
    | .ends .tableRow =>
      let (head, rows, rest') := skip (readTable [] rest)
      (head, .tableRow cells.reverse :: rows, rest')
    | .start .tableCell =>
      let (content, rest') := readInlines .tableCell rest
      let (head, rows, rest'') := readTable (.tableCell content :: cells) rest'.1
      (head, rows, ⟨rest''.1, Nat.le_trans rest''.2 (Nat.le_succ_of_le rest'.2)⟩)
    | _ => skip (readTable cells rest)
termination_by events.length
decreasing_by
  all_goals simp only [List.length_cons]
  all_goals omega

-- ---------------------------------------------------------------------------
-- Blocks
-- ---------------------------------------------------------------------------

/-- Reads blocks up to their ending, or without one up to the last event. -/
def readBlocks (ending : Option Ending) (events : List Event) : List Block × Rest events :=
  match events with
  | [] => ([], ⟨[], by simp⟩)
  | event :: rest =>
    let more (blocks : List Block) (rest' : Rest rest) : List Block × Rest (event :: rest) :=
      let (others, rest'') := readBlocks ending rest'.1
      (blocks ++ others, ⟨rest''.1, Nat.le_trans rest''.2 (Nat.le_succ_of_le rest'.2)⟩)
    if ending.any fun e => event = .ends e then ([], ⟨rest, by simp⟩)
    else if h : event.startsInline then
      let loose := collectLooseInlines (event :: rest)
      more [.plain (attachGroups loose.1)] ⟨loose.2.1, length_collectLooseInlines h⟩
    else
      match event with
      | .start .paragraph =>
        let (content, rest') := readInlines .paragraph rest
        more [.paragraph content] rest'
      | .start (.heading level attr) =>
        let (content, rest') := readInlines .heading rest
        more [.heading level attr content] rest'
      | .start (.codeBlock info) =>
        let (text, rest') := readText .codeBlock Event.literalText rest
        more [.codeBlock ((info.map Attr.ofInfo).getD Attr.empty) text] rest'
      | .start .htmlBlock =>
        let (text, rest') := readText .htmlBlock Event.literalText rest
        more [.html text] rest'
      | .start .blockQuote =>
        let (content, rest') := readBlocks (some .blockQuote) rest
        more [.blockQuote content] rest'
      | .start (.list start) =>
        let (items, rest') := readBlocks (some .list) rest
        more [match start with | some start => .orderedList start items | none => .bulletList items]
          rest'
      | .start .item =>
        let (content, rest') := readBlocks (some .item) rest
        more [.listItem content] rest'
      | .start (.table alignments) =>
        let (head, rows, rest') := readTable [] rest
        more [.table alignments (.tableRow (head.getD [])) rows] rest'
      | .rule => more [.rule] ⟨rest, Nat.le_refl _⟩
      | _ => more [] ⟨rest, Nat.le_refl _⟩
termination_by events.length
decreasing_by
  all_goals simp only [List.length_cons]
  all_goals omega

def blocksOf (events : List Event) : List Block :=
  (readBlocks none events).1

end Literate.Markdown
