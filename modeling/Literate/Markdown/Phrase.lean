import Literate.Markdown.Token
import Literate.Text.Run

/-!
# Phrases

The tokens of a text become inlines in two passes. The first (`phrase`) goes from left to right and
finds everything whose inside is not read again, or whose end is told by a bracket: code spans,
formulas, HTML, addresses, links and images. What is left of the marks `*`, `_` and `~` are runs, and
the second pass (`resolve`) matches those, for the text of a link before it is matched around it.

Nothing is ever an error: a mark without a partner is text.
-/

namespace Literate.Markdown

/-- A part of a text between the passes. -/
inductive Piece where
  | node (inline : Inline)
  | run (mark : Char) (size : Nat) (canOpen canClose : Bool)

def Piece.text (chars : List Char) : Piece :=
  .node (.text (String.ofList chars))

-- ---------------------------------------------------------------------------
-- Emphasis
-- ---------------------------------------------------------------------------

namespace Emphasis

/-- A run that may still be closed. -/
structure Opener where
  mark : Char
  /-- How many of its marks are not used yet. -/
  left : Nat
  /-- How many it had. -/
  size : Nat
  canClose : Bool
  /-- What stands behind it, last one first. -/
  content : List Inline

/-- The openers, innermost first, and what stands before them all, last one first. -/
structure State where
  openers : List Opener
  content : List Inline

def State.empty : State := ⟨[], []⟩

def State.append (inlines : List Inline) (s : State) : State :=
  match s.openers with
  | [] => { s with content := inlines ++ s.content }
  | o :: os => { s with openers := { o with content := inlines ++ o.content } :: os }

/-- The opener as text, followed by what stands behind it, last one first. -/
def Opener.asText (o : Opener) : List Inline :=
  o.content ++ [.text (Text.repeated o.left o.mark)]

/-- Gives up the openers that satisfy `p`. -/
def giveUp (p : Opener → Bool) (content : List Inline) : List Opener → State
  | [] => ⟨[], content⟩
  | o :: os =>
    let s := giveUp p content os
    if p o then s.append o.asText else { s with openers := o :: s.openers }

/-- Whether an opener goes with a closer. Of two runs of which one could both open and close, the
sizes may not add up to a multiple of three, unless both are one; tildes go with a run of their size. -/
def Opener.fits (o : Opener) (mark : Char) (size : Nat) (canOpen : Bool) : Bool :=
  o.mark = mark && (mark ≠ '~' || o.size = size) &&
    ((!canOpen && !o.canClose) || (size + o.size) % 3 ≠ 0 || size % 3 = 0)

/-- The innermost opener that satisfies `p`, with the openers inside it as text behind it, and the
openers around it. -/
def findOpener? (p : Opener → Bool) : List Opener → Option (Opener × List Opener)
  | [] => none
  | o :: os =>
    if p o then some (o, os)
    else match findOpener? p os with
      | some (found, around) =>
        some ({ found with content := o.asText ++ found.content }, around)
      | none => none

/-- Inlines inside as many marks, in pairs from the inside out. -/
def wrap (mark : Char) : Nat → List Inline → List Inline
  | 0, content => content
  | 1, content => [if mark = '~' then .strikethrough content else .emphasis content]
  | n + 2, content => wrap mark n [if mark = '~' then .strikethrough content else .strong content]

/-- Closes openers with the marks of a run, of which `left` are not used yet; answers with those that
find no opener. A run of tildes that finds none shuts off the tildes before it. -/
def close (mark : Char) (size : Nat) (canOpen : Bool) : Nat → Nat → State → Nat × State
  | 0, left, s => (left, s)
  | _ + 1, 0, s => (0, s)
  | fuel + 1, left, s =>
    match findOpener? (·.fits mark size canOpen) s.openers with
    | none =>
      (left, if mark = '~' then giveUp (·.mark = '~') s.content s.openers else s)
    | some (o, around) =>
      let used := min left o.left
      let inlines := wrap mark used o.content.reverse
      let s := { s with openers := around }
      let s :=
        if used < o.left then
          { s with openers := { o with left := o.left - used, content := [] } :: s.openers }
        else s
      close mark size canOpen fuel (left - used) (s.append inlines)

/-- The state after one more piece. -/
def State.push (s : State) : Piece → State
  | .node inline => s.append [inline]
  | .run mark size canOpen canClose =>
    let (left, s) := if canClose then close mark size canOpen size size s else (size, s)
    if left = 0 then s
    else if canOpen then
      { s with openers := ⟨mark, left, size, canClose, []⟩ :: s.openers }
    else s.append [.text (Text.repeated left mark)]

end Emphasis

/-- Matches the runs among some pieces. -/
def resolve (pieces : List Piece) : List Inline :=
  let s := pieces.foldl Emphasis.State.push Emphasis.State.empty
  (Emphasis.giveUp (fun _ => true) s.content s.openers).content.reverse

-- ---------------------------------------------------------------------------
-- Code and formulas
-- ---------------------------------------------------------------------------

/-- The text with `\|` written as a bar, as it is meant inside a table. -/
def unescapeBars : List Char → List Char
  | [] => []
  | '\\' :: '|' :: cs => '|' :: unescapeBars cs
  | c :: cs => c :: unescapeBars cs

/-- The text of a code span between its backticks: line ends are spaces, and one space is taken off
both ends if there is one at both and the text is not all spaces. -/
def codeText (inTable : Bool) (cs : List Char) : List Char :=
  let cs := if inTable then unescapeBars cs else cs
  let cs := cs.map fun c => if isLineEnd c then ' ' else c
  if cs.head? = some ' ' && cs.getLast? = some ' ' && cs.any (· ≠ ' ') then (cs.drop 1).dropLast
  else cs

/-- The tokens before the next run of exactly `n` backticks, whether a backslash stands before it, and
the tokens behind it. -/
def splitAtTicks? (n : Nat) : List Token → Option (List Token × Bool × List Token)
  | [] => none
  | .ticks size escaped :: tokens =>
    if size = n then some ([], escaped, tokens)
    else (splitAtTicks? n tokens).map fun (inner, e, rest) => (.ticks size escaped :: inner, e, rest)
  | token :: tokens => (splitAtTicks? n tokens).map fun (inner, e, rest) => (token :: inner, e, rest)

/-- The tokens before the next dollar sign of a group, whether it may close, and the tokens behind. -/
def splitAtDollar? (group : Nat) : List Token → Option (List Token × Bool × List Token)
  | [] => none
  | .dollar canOpen canClose g :: tokens =>
    if g = group then some ([], canClose, tokens)
    else (splitAtDollar? group tokens).map fun (inner, c, rest) =>
      (.dollar canOpen canClose g :: inner, c, rest)
  | token :: tokens => (splitAtDollar? group tokens).map fun (inner, c, rest) => (token :: inner, c, rest)

/-- The tokens behind a dollar sign at the front. -/
def afterDollar? : List Token → Option (List Token)
  | .dollar .. :: tokens => some tokens
  | _ => none

/-- The formula that a dollar sign of a group opens, and the tokens behind it. Two signs open a
formula that is set off, and two close it. -/
def readFormula? (inTable : Bool) (group : Nat) (tokens : List Token) :
    Option (Inline × List Token) :=
  let formula (display : Bool) (inner : List Token) : Inline :=
    .math display (String.ofList ((if inTable then unescapeBars else id) (rawOf inner)))
  match afterDollar? tokens with
  | some tokens =>
    match splitAtDollar? group tokens with
    | some (inner, _, rest) => (afterDollar? rest).map fun rest => (formula true inner, rest)
    | none => none
  | none =>
    match splitAtDollar? group tokens with
    | some (inner, canClose, rest) => if canClose then some (formula false inner, rest) else none
    | none => none

-- ---------------------------------------------------------------------------
-- Links
-- ---------------------------------------------------------------------------

/-- An opening bracket whose partner has not come yet. -/
structure Bracket where
  image : Bool
  /-- Whether it may still become a link: no link holds another. -/
  live : Bool
  /-- The tokens behind it. -/
  after : List Token
  /-- What stands behind it, last one first. -/
  pieces : List Piece

/-- What the first pass has read: open brackets, innermost first, and what stands before them all,
last one first. -/
structure Reading where
  brackets : List Bracket
  pieces : List Piece

namespace Reading

def empty : Reading := ⟨[], []⟩

/-- The reading with more pieces at its end, last one first. -/
def append (pieces : List Piece) (r : Reading) : Reading :=
  match r.brackets with
  | [] => { r with pieces := pieces ++ r.pieces }
  | b :: bs => { r with brackets := { b with pieces := pieces ++ b.pieces } :: bs }

def add (piece : Piece) (r : Reading) : Reading := r.append [piece]

/-- A bracket as text, followed by what stands behind it, last one first. -/
def asText (b : Bracket) : List Piece :=
  b.pieces ++ [Piece.text (if b.image then ['!', '['] else ['['])]

def finish (r : Reading) : List Piece :=
  (r.brackets.flatMap asText ++ r.pieces).reverse

/-- The reading after its innermost bracket `b` became a link or image; inside a link nothing else
becomes a link. -/
def addLink (b : Bracket) (target : Target) (around : List Bracket) (r : Reading) : Reading :=
  let content := resolve b.pieces.reverse
  let node : Inline :=
    if b.image then .image target.destination target.title content
    else .link target.destination target.title content
  let around := if b.image then around else around.map fun c => { c with live := c.live && c.image }
  { r with brackets := around }.add (.node node)

end Reading

/-- The tokens with the closing bracket that ends `n` characters from here marked as tried. -/
def markTried (n : Nat) : List Token → List Token
  | [] => []
  | token :: tokens =>
    if token.raw.length < n then token :: markTried (n - token.raw.length) tokens
    else match token with
      | .linkClose _ => .linkClose false :: tokens
      | _ => token :: tokens

/-- Where the link leads whose text a bracket `b` opens and a bracket before `tokens` closes, and the
tokens behind the link; or only those tokens. `free` says whether the text itself may be the label. -/
def readLink? (inTable : Bool) (definitions : Definitions) (free : Bool) (b : Bracket)
    (tokens : List Token) : Option Target × List Token :=
  let cs := rawOf tokens
  let behind (rest : List Char) : List Token := (splitTokens (cs.length - rest.length) tokens).2
  match Target.readInline? inTable cs with
  | some (target, rest) => (some target, behind rest)
  | none =>
    match Target.readLabel? some cs with
    | some (key, rest) =>
      match definitions.lookup key with
      | some target => (some target, behind rest)
      | none => (none, markTried (cs.length - rest.length) tokens)
    | none =>
      match if free then Target.readLabel? some ('[' :: rawOf b.after) else none with
      | some (key, rest) =>
        if rest.length = cs.length then
          match definitions.lookup key, cs with
          | some target, '[' :: ']' :: rest => (some target, behind rest)
          | some target, _ => (some target, tokens)
          | none, _ => (none, tokens)
        else (none, tokens)
      | none => (none, tokens)

-- ---------------------------------------------------------------------------
-- The first pass
-- ---------------------------------------------------------------------------

/-- The reading after one more token, and the tokens that are left. -/
def readPhrase (inTable : Bool) (definitions : Definitions) (r : Reading) (token : Token)
    (tokens : List Token) : Reading × List Token :=
  match token with
  | .text chars => (r.add (.text chars), tokens)
  | .replaced _ shown => (r.add (.text shown), tokens)
  | .hidden _ => (r, tokens)
  | .run mark size canOpen canClose => (r.add (.run mark size canOpen canClose), tokens)
  | .lineBreak hard _ _ => (r.add (.node (if hard then .hardBreak else .softBreak)), tokens)
  | .ticks size escaped =>
    let first := if escaped then 1 else 0
    let found := if size = first then none else splitAtTicks? (size - first) tokens
    match found with
    | some (inner, backslash, rest) =>
      let text := codeText inTable (rawOf inner ++ if backslash then ['\\'] else [])
      let r := if escaped then r.add (.text ['\x60']) else r
      (r.add (.node (.code Attr.empty (String.ofList text))), rest)
    | none => (r.add (.text (List.replicate size '\x60')), tokens)
  | .dollar canOpen _ group =>
    match if canOpen then readFormula? inTable group tokens else none with
    | some (formula, rest) => (r.add (.node formula), rest)
    | none => (r.add (.text ['$']), tokens)
  | .angle =>
    let cs := rawOf tokens
    match Html.readAddress? cs with
    | some (address, rest) =>
      let address := String.ofList address
      (r.add (.node (.link address "" [.text address])),
        (splitTokens (cs.length - rest.length) tokens).2)
    | none =>
      match Html.afterInline? cs with
      | some (rest, copying) =>
        let (front, back) := splitTokens (cs.length - rest.length) tokens
        let text := match copying with | .text => rawOf front | .source => sourceOf front
        (r.add (.node (.html (String.ofList ('<' :: text)))), back)
      | none => (r.add (.text ['<']), tokens)
  | .imageOpen => ({ r with brackets := ⟨true, true, tokens, []⟩ :: r.brackets }, tokens)
  | .linkOpen => ({ r with brackets := ⟨false, true, tokens, []⟩ :: r.brackets }, tokens)
  | .linkClose free =>
    match r.brackets with
    | [] => (r.add (.text [']']), tokens)
    | b :: around =>
      let asText : Reading := { r with brackets := around }.append (.text [']'] :: Reading.asText b)
      if b.live then
        match readLink? inTable definitions free b tokens with
        | (some target, rest) => (r.addLink b target around, rest)
        | (none, rest) => (asText, rest)
      else (asText, tokens)

/-- The first pass. Every step takes a token, so `fuel` may be the number of them. -/
def readPhrases (inTable : Bool) (definitions : Definitions) : Nat → Reading → List Token → Reading
  | 0, r, _ => r
  | _ + 1, r, [] => r
  | fuel + 1, r, token :: tokens =>
    let (r, tokens) := readPhrase inTable definitions r token tokens
    readPhrases inTable definitions fuel r tokens

def phrase (inTable : Bool) (definitions : Definitions) (tokens : List Token) : List Inline :=
  resolve (readPhrases inTable definitions tokens.length .empty tokens).finish

end Literate.Markdown
