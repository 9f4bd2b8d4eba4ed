import Literate.Document.Basic

/-!
# Events

A text is read into a flat list of events: blocks and inlines begin and end, and leaves stand for
themselves. `Literate.Markdown.Assembly` puts trees together from them; `Inline.events` takes an inline
apart.

Two things of a document have no event of their own: what a tight list holds as paragraphs comes
without beginning and end, and an attribute group behind a code span comes as text. The other way round,
there are extensions of Markdown of which no tree is made (footnotes, task lists, lists of definitions,
text that is raised or lowered); what they have for events is `other`, and is passed over.
-/

namespace Literate.Markdown

/-- What begins, with all that is known of it in advance. -/
inductive Tag where
  | paragraph
  | heading (level : UInt8) (attr : Attr)
  | blockQuote
  /-- Code, with the info string of its fence or without a fence. -/
  | codeBlock (info : Option String)
  | htmlBlock
  /-- A list, with its first number or with bullets. -/
  | list (start : Option UInt64)
  | item
  | table (alignments : List Alignment)
  | tableHead
  | tableRow
  | tableCell
  | emphasis
  | strong
  | strikethrough
  | link (dest title : String)
  | image (dest title : String)
  /-- Front matter. -/
  | metadata
  /-- A part of an extension of which no tree is made. -/
  | other
deriving DecidableEq

/-- What ends. -/
inductive Ending where
  | paragraph
  | heading
  | blockQuote
  | codeBlock
  | htmlBlock
  | list
  | item
  | table
  | tableHead
  | tableRow
  | tableCell
  | emphasis
  | strong
  | strikethrough
  | link
  | image
  | metadata
  | other
deriving DecidableEq

/-- How that which begins with a tag ends. -/
def Tag.ending : Tag → Ending
  | paragraph => .paragraph
  | heading .. => .heading
  | blockQuote => .blockQuote
  | codeBlock _ => .codeBlock
  | htmlBlock => .htmlBlock
  | list _ => .list
  | item => .item
  | table _ => .table
  | tableHead => .tableHead
  | tableRow => .tableRow
  | tableCell => .tableCell
  | emphasis => .emphasis
  | strong => .strong
  | strikethrough => .strikethrough
  | link .. => .link
  | image .. => .image
  | metadata => .metadata
  | other => .other

inductive Event where
  | start (tag : Tag)
  | ends (ending : Ending)
  | text (text : String)
  /-- Text that is known to begin at a byte of the source: a piece of a line of front matter. -/
  | line (start : Nat) (text : String)
  | code (text : String)
  | math (display : Bool) (text : String)
  /-- A line of a block of raw HTML. -/
  | html (text : String)
  | inlineHtml (text : String)
  | softBreak
  | hardBreak
  | rule
  /-- A mark of an extension of which no tree is made. -/
  | other
deriving DecidableEq

def Tag.around (tag : Tag) (events : List Event) : List Event :=
  .start tag :: events ++ [.ends tag.ending]

end Literate.Markdown

namespace Literate

open Markdown (Event Tag)

mutual
def Inline.events : Inline → List Event
  | .text text => [.text text]
  | .code _ text => [.code text]
  | .emphasis content => Tag.emphasis.around (eventsOfInlines content)
  | .strong content => Tag.strong.around (eventsOfInlines content)
  | .strikethrough content => Tag.strikethrough.around (eventsOfInlines content)
  | .link dest title content => (Tag.link dest title).around (eventsOfInlines content)
  | .image dest title alt => (Tag.image dest title).around (eventsOfInlines alt)
  | .math display text => [.math display text]
  | .span _ content => eventsOfInlines content
  | .html text => [.inlineHtml text]
  | .softBreak => [.softBreak]
  | .hardBreak => [.hardBreak]
def eventsOfInlines : List Inline → List Event
  | [] => []
  | inline :: inlines => inline.events ++ eventsOfInlines inlines
end

end Literate
