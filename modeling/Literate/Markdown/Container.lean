import Literate.Markdown.Line

/-!
# Containers

A block stands in containers: quotes, lists and their items. Each further line of it has to go on in
all of them, and `enter` follows a line through the open containers, outermost first, as far as it
does: a quote asks for its mark, an item for its indentation.

Indentation is counted in columns, and a tab goes on to the next column divisible by four. A container
may take a part of a tab, so a `Cursor` remembers how much of the last one is left.
-/

namespace Literate.Markdown

structure Cursor where
  /-- What follows, to the end of the document. -/
  rest : List Char
  /-- The characters of the line before it, last one first. -/
  taken : List Char
  /-- How many characters stand before it, counted from the last tab. -/
  column : Nat
  /-- How many columns of the last tab are still to come. -/
  pending : Nat

namespace Cursor

def ofLine (cs : List Char) : Cursor := ⟨cs, [], 0, 0⟩

def step (n : Nat) (c : Cursor) : Cursor :=
  { c with rest := c.rest.drop n, taken := (c.rest.take n).reverse ++ c.taken, column := c.column + n }

/-- Skips up to `n` columns of blanks in front of a text, and says how many were missing. -/
def skipBlanks (taken : List Char) (column pending n : Nat) : List Char → Cursor × Nat
  | [] => (⟨[], taken, column, pending⟩, n)
  | c :: cs =>
    if n = 0 then (⟨c :: cs, taken, column, pending⟩, 0)
    else if c = ' ' then skipBlanks (c :: taken) (column + 1) pending (n - 1) cs
    else if c = '\t' then
      let width := 4 - column % 4
      skipBlanks (c :: taken) 0 (width - n) (n - width) cs
    else (⟨c :: cs, taken, column, pending⟩, n)

def skip (n : Nat) (c : Cursor) : Cursor × Nat :=
  skipBlanks c.taken c.column (c.pending - n) (n - c.pending) c.rest

def skipAll (c : Cursor) : Cursor :=
  let blanks := c.rest.takeWhile fun d => d = ' ' || d = '\t'
  { c.step blanks.length with pending := 0 }

def margin (c : Cursor) : List Char :=
  c.taken.reverse

/-- Goes over the mark of a quote, with one space or column behind it. -/
def overQuote? (c : Cursor) : Option Cursor :=
  match c.rest with
  | '>' :: _ => some ((c.step 1).skip 1).1
  | _ => none

/-- Goes over the marker of a list item, given how many columns stand before it: the marker, and how
many columns the content of the item is indented. A line that is a rule is no item. -/
def overMarker? (outer : Nat) (c : Cursor) : Option (Marker × Nat × Cursor) :=
  match Marker.read? c.rest with
  | none => none
  | some (marker, _) =>
    if marker.isBullet && (afterRule? c.rest).isSome then none
    else
      let (c, missing) := (c.step marker.width).skip 1
      let indent := outer + marker.width + 1
      if missing ≠ 0 && !atLineEnd c.rest then none
      else if isBlankLine c.rest then some (marker, indent, c)
      else
        let (inner, missing) := c.skip 4
        if missing = 0 then some (marker, indent, c) else some (marker, indent + (4 - missing), inner)

end Cursor

/-- A container that blocks stand in. -/
inductive Container where
  | quote
  /-- An item, and how many columns its content is indented. -/
  | item (indent : Nat)
  /-- A list of the items that have one mark; `number` is that of the first. -/
  | list (tight : Bool) (mark : Char) (number : Nat)

/-- Follows a line through containers, outermost first: the cursor behind the last that it goes on
in, and how many those are. -/
def enter (c : Cursor) : List Container → Cursor × Nat
  | [] => (c, 0)
  | .quote :: containers =>
    match (c.skip 3).1.overQuote? with
    | some inner => let (c, n) := enter inner containers; (c, n + 1)
    | none => (c, 0)
  | .item indent :: containers =>
    let (inner, missing) := c.skip indent
    if missing = 0 || atLineEnd inner.rest then
      let (c, n) := enter inner containers; (c, n + 1)
    else (c, 0)
  | .list .. :: containers => let (c, n) := enter c containers; (c, n + 1)

/-- The cursor behind the marks of all containers, if the line goes on in all. -/
def enterAll? (containers : List Container) (cs : List Char) : Option Cursor :=
  let (c, n) := enter (.ofLine cs) containers
  if n = containers.length then some c else none

end Literate.Markdown
