import Literate.Markdown.Entity
import Literate.Markdown.Html
import Literate.Text.Folding
import Literate.Text.Punctuation

/-!
# Where links lead

A link has a destination and a title, written behind its text or under a label elsewhere in the
document. Destinations stand in angle brackets or are a word with balanced parentheses
(`readDestination?`), titles stand in quotes or parentheses (`readTitle?`), and labels are compared
without regard to case and to how their blanks are written (`readLabel?`).

In a table a bar is written `\|` whatever it stands in, so most readers are told whether they are in
one.
-/

namespace Literate.Markdown

structure Target where
  destination : String
  title : String
deriving Inhabited

namespace Target

/-- Resolves escapes and character references, and takes carriage returns out. -/
def unescape (inTable : Bool) : Nat → List Char → List Char
  | 0, _ => []
  | _ + 1, [] => []
  | fuel + 1, '\\' :: c :: cs =>
    if inTable && c = '\\' && cs.head? = some '|' then '|' :: unescape inTable fuel (cs.drop 1)
    else if Text.isAsciiPunctuation c then c :: unescape inTable fuel cs
    else '\\' :: unescape inTable fuel (c :: cs)
  | fuel + 1, '&' :: cs =>
    match Entity.read? ('&' :: cs) with
    | some (text, size) => text ++ unescape inTable fuel (cs.drop (size - 1))
    | none => '&' :: unescape inTable fuel cs
  | fuel + 1, c :: cs =>
    if c = '\r' then unescape inTable fuel cs else c :: unescape inTable fuel cs

def unescaped (inTable : Bool) (cs : List Char) : List Char :=
  unescape inTable cs.length cs

/-- The destination in angle brackets whose `<` stands before `cs`, and what follows. -/
def readPointed? (read : List Char) : List Char → Option (List Char × List Char)
  | [] => none
  | '\\' :: c :: cs =>
    if Text.isAsciiPunctuation c then readPointed? (c :: '\\' :: read) cs
    else if c = '<' || isLineEnd c then none
    else readPointed? (c :: '\\' :: read) cs
  | c :: cs =>
    if c = '>' then some (read.reverse, cs)
    else if c = '<' || isLineEnd c then none
    else readPointed? (c :: read) cs

/-- How deep parentheses may nest in a destination. -/
def maxNesting : Nat := 32

/-- The destination at the front of a text, up to a space, a control character or a parenthesis that
closes none of its own; `nest` of those are open. -/
def readBare? (nest : Nat) (read : List Char) : List Char → Option (List Char × List Char)
  | [] => if nest = 0 then some (read.reverse, []) else none
  | '\\' :: c :: cs =>
    if Text.isAsciiPunctuation c then readBare? nest (c :: '\\' :: read) cs
    else if c.toNat ≤ 0x20 then
      if nest = 0 then some (('\\' :: read).reverse, c :: cs) else none
    else readBare? nest (c :: '\\' :: read) cs
  | c :: cs =>
    if c.toNat ≤ 0x20 then if nest = 0 then some (read.reverse, c :: cs) else none
    else if c = '(' then
      if maxNesting < nest then none else readBare? (nest + 1) (c :: read) cs
    else if c = ')' then
      if nest = 0 then some (read.reverse, c :: cs) else readBare? (nest - 1) (c :: read) cs
    else readBare? nest (c :: read) cs

/-- The destination at the front of a text, and what follows. -/
def readDestination? : List Char → Option (List Char × List Char)
  | '<' :: cs => readPointed? [] cs
  | cs => readBare? 0 [] cs

/-- The character that closes a title which `open_` opens. -/
def titleCloser? (open_ : Char) : Option Char :=
  if open_ = '"' || open_ = '\'' then some open_ else if open_ = '(' then some ')' else none

/-- The title in a link, after its opening character: the text up to the closing one, its escapes and
references resolved, and the gaps at the front of a further line taken off. -/
def readTitleBody? (inTable : Bool) (open_ close : Char) :
    Nat → List Char → List Char → Option (List Char × List Char)
  | 0, _, _ => none
  | _ + 1, _, [] => none
  | fuel + 1, read, c :: cs =>
    let continue_ := readTitleBody? inTable open_ close fuel
    if c = close then some (read.reverse, cs)
    else if c = open_ then none
    else if c = '\r' && cs.head? ≠ some '\n' then
      continue_ ('\n' :: read) (cs.dropWhile fun d => d = ' ' || d = '\t')
    else if c = '\n' then continue_ ('\n' :: read) (cs.dropWhile fun d => d = ' ' || d = '\t')
    else if c = '&' then
      match Entity.read? (c :: cs) with
      | some (text, size) => continue_ (text.reverse ++ read) (cs.drop (size - 1))
      | none => continue_ (c :: read) cs
    else if c = '\\' then
      match cs with
      | '\\' :: '|' :: rest =>
        if inTable then continue_ ('|' :: read) rest else continue_ ('\\' :: read) ('|' :: rest)
      | d :: rest =>
        if Text.isAsciiPunctuation d then continue_ (d :: read) rest else continue_ (c :: read) cs
      | [] => continue_ (c :: read) cs
    else continue_ (c :: read) cs

/-- The title at the front of a text, and what follows. -/
def readTitle? (inTable : Bool) : List Char → Option (List Char × List Char)
  | [] => none
  | c :: cs =>
    match titleCloser? c with
    | some close => readTitleBody? inTable c close (cs.length + 1) [] cs
    | none => none

/-- The gaps at the front of a text taken off, with at most one line end among them. -/
def skipSeparator (cs : List Char) : List Char :=
  let rest := cs.dropWhile isGap
  ((afterLineEnd? rest).getD rest).dropWhile isGap

/-- The destination and title in parentheses at the front of a text, and what follows. -/
def readInline? (inTable : Bool) : List Char → Option (Target × List Char)
  | '(' :: cs =>
    match readDestination? (skipSeparator cs) with
    | none => none
    | some (destination, rest) =>
      let rest := skipSeparator rest
      let (title, rest) := match readTitle? inTable rest with
        | some (title, after) => (title, skipSeparator after)
        | none => ([], rest)
      match rest with
      | ')' :: after =>
        some (⟨String.ofList (unescaped inTable destination), String.ofList title⟩, after)
      | _ => none
  | _ => none

-- ---------------------------------------------------------------------------
-- Labels
-- ---------------------------------------------------------------------------

/-- A label is shorter than this. -/
def maxLabel : Nat := 1000

/-- The text of a label after its opening bracket, and what follows the closing one. `continues`
says what of the text after a line end still belongs to the label, if the label may go on there. -/
def readLabelBody? (continues : List Char → Option (List Char)) :
    Nat → List Char → List Char → Option (List Char × List Char)
  | 0, _, _ => none
  | _ + 1, _, [] => none
  | fuel + 1, read, c :: cs =>
    if c = '[' then none
    else if c = ']' then some (read.reverse, cs)
    else if isLineEnd c then
      match afterLineEnd? (c :: cs) with
      | some rest =>
        match continues rest with
        | some rest =>
          if isBlankLine rest then none else readLabelBody? continues fuel ('\n' :: read) rest
        | none => none
      | none => none
    else if c = '\\' then
      match cs with
      | d :: rest => readLabelBody? continues fuel (d :: c :: read) rest
      | [] => none
    else readLabelBody? continues fuel (c :: read) cs

/-- Two labels are the same if these texts are: case is folded, and every run of blanks counts as one
space. -/
def labelKey (cs : List Char) : List Char :=
  let words := Text.splitRuns isSpace [] cs
  [' '].intercalate (words.map fun word => word.flatMap Text.foldCase)

/-- The label in brackets at the front of a text, as a key, and what follows. -/
def readLabel? (continues : List Char → Option (List Char)) : List Char → Option (List Char × List Char)
  | '[' :: cs =>
    match readLabelBody? continues (min (cs.length + 1) maxLabel) [] cs with
    | some (label, rest) => if label.all isSpace then none else some (labelKey label, rest)
    | none => none
  | _ => none

end Target

/-- The targets of a document by the keys of their labels; of several for one key the first counts. -/
abbrev Definitions := List (List Char × Target)

end Literate.Markdown
