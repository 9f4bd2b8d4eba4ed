import Literate.Document.Basic
import Literate.Markdown.Assembly
import Literate.Markdown.Part
import Literate.Toml.Reader

/-!
# Documents from their source

A source is Markdown, with front matter between lines of `+++` if it opens with that. Front matter is
TOML whose strings are Markdown in turn. `Document.parse` reads a source, `parseFragment` a text that
has no front matter, such as what an interpreter answers. Only front matter can be wrong.
-/

namespace Literate

/-- A range of bytes in a file that is known by a number, and what is wrong there. -/
structure ParseError where
  message : String
  span : Toml.Span
  file : Nat
  notes : List String

namespace ParseError

/-- An error with nothing more to say. -/
def ofSpan (message : String) (span : Toml.Span) (file : Nat) : ParseError :=
  ⟨message, span, file, []⟩

def withNote (note : String) (e : ParseError) : ParseError :=
  { e with notes := e.notes ++ [note] }

/-- An error in front matter whose text begins at a byte of the source. -/
def ofToml (e : Toml.ReadError) (offset file : Nat) : ParseError :=
  (ofSpan "invalid front matter" ⟨e.span.start + offset, e.span.stop + offset⟩ file).withNote e.message

end ParseError

/-- The blocks of a text without front matter. -/
def parseFragment (text : String) : List Block :=
  Markdown.blocksOf (Markdown.eventsOf false text)

/-- Markdown as metadata: a single paragraph is its inlines. -/
def Metadata.ofMarkup (text : String) : Metadata :=
  match parseFragment text with
  | [] => .inlines []
  | [.paragraph content] => .inlines content
  | content => .blocks content

mutual
/-- A value of front matter as metadata. Numbers and dates are kept as they are printed. -/
def Metadata.ofToml : Toml.Value → Metadata
  | .string s => .ofMarkup s
  | .boolean b => .bool b
  | .array items => .list (metadataOfItems items)
  | .table entries => .map (metadataOfEntries entries)
  | .integer n => .str (Toml.Value.print (.integer n))
  | .float x => .str (Toml.Value.print (.float x))
  | .datetime d => .str (Toml.Value.print (.datetime d))
def metadataOfItems : List Toml.Value → List Metadata
  | [] => []
  | item :: items => .ofToml item :: metadataOfItems items
def metadataOfEntries : List (String × Toml.Value) → List (String × Metadata)
  | [] => []
  | (key, value) :: entries => (key, .ofToml value) :: metadataOfEntries entries
end

/-- What has been gathered of front matter: the byte at which it begins, once there is a piece of it,
and its text. -/
structure Gathered where
  start : Option Nat
  text : String

namespace Gathered

def none : Gathered := ⟨.none, ""⟩

/-- With what one more event says. Of the places of the pieces the first counts. -/
def add (g : Gathered) : Markdown.Event → Gathered
  | .line start text => ⟨g.start.or (some start), g.text ++ text⟩
  | .text text => { g with text := g.text ++ text }
  | _ => g

end Gathered

/-- The front matter at the front of some events: the byte at which its text begins, the text, and the
events behind it. -/
def frontMatter? : List Markdown.Event → Option (Nat × String × List Markdown.Event)
  | .start .metadata :: events =>
    let inside := events.takeWhile fun event => event ≠ .ends .metadata
    let gathered := inside.foldl Gathered.add .none
    some (gathered.start.getD 0, gathered.text, events.drop (inside.length + 1))
  | _ => none

namespace Document

def ofEvents (events : List Markdown.Event) (file : Nat) : Except (List ParseError) Document :=
  match frontMatter? events with
  | none => .ok (ofBlocks (Markdown.blocksOf events))
  | some (offset, text, rest) =>
    match Toml.read text with
    | .ok entries => .ok ⟨metadataOfEntries entries, Markdown.blocksOf rest⟩
    | .error e => .error [.ofToml e offset file]

def parse (source : String) (file : Nat) : Except (List ParseError) Document :=
  ofEvents (Markdown.eventsOf true source) file

end Document

end Literate
