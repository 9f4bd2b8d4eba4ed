import Literate.Markdown.Target

/-!
# Tokens of a line of text

The text of a paragraph, heading or cell is cut into tokens, each of which knows the characters it was
cut from (`Token.raw`). What a mark means is left open here: a token records what it could do
(`canOpen`, `canClose`), and `Literate.Markdown.Phrase` decides.

A paragraph is a list of `Line`s. The marks of the containers in front of a line, its margin, are kept
with the break before it, since a comment that runs over the break is copied with them.
-/

namespace Literate.Markdown

/-- A piece of text. -/
inductive Token where
  /-- Text that stands for itself. -/
  | text (chars : List Char)
  /-- Text that stands for other text: an escape, a character reference. -/
  | replaced (raw shown : List Char)
  /-- Blanks at either end of a line, which stand for nothing. -/
  | hidden (raw : List Char)
  /-- A run of `*`, `_` or `~` that may open or close emphasis. -/
  | run (mark : Char) (size : Nat) (canOpen canClose : Bool)
  /-- A run of backticks; the first of them is escaped if a backslash stands before it. -/
  | ticks (size : Nat) (escaped : Bool)
  /-- A dollar sign, and the braces it stands in. -/
  | dollar (canOpen canClose : Bool) (group : Nat)
  | angle
  | imageOpen
  | linkOpen
  /-- A closing bracket; `free` is false once it has been tried as the end of a label. -/
  | linkClose (free : Bool)
  /-- The end of a line, and the margin of the next one. -/
  | lineBreak (hard : Bool) (raw margin : List Char)
deriving Inhabited

namespace Token

/-- The characters that a token was cut from. -/
def raw : Token → List Char
  | text chars => chars
  | replaced raw _ => raw
  | hidden raw => raw
  | run mark size _ _ => List.replicate size mark
  | ticks size escaped => (if escaped then ['\\'] else []) ++ List.replicate size '\x60'
  | dollar .. => ['$']
  | angle => ['<']
  | imageOpen => ['!', '[']
  | linkOpen => ['[']
  | linkClose _ => [']']
  | lineBreak _ raw _ => raw

/-- The characters of the document from the token's first to the next token's first. -/
def source : Token → List Char
  | lineBreak _ raw margin => raw ++ margin
  | token => token.raw

def drop (n : Nat) (token : Token) : Token :=
  if n = 0 then token else .text (token.raw.drop n)

def take (n : Nat) (token : Token) : Token :=
  if token.raw.length ≤ n then token else .text (token.raw.take n)

end Token

def rawOf (tokens : List Token) : List Char :=
  tokens.flatMap Token.raw

/-- The characters of the document that some tokens take up, margins included. -/
def sourceOf (tokens : List Token) : List Char :=
  tokens.flatMap Token.source

/-- Tokens cut after their first `n` characters. -/
def splitTokens (n : Nat) : List Token → List Token × List Token
  | [] => ([], [])
  | token :: tokens =>
    if n = 0 then ([], token :: tokens)
    else if token.raw.length ≤ n then
      let (front, back) := splitTokens (n - token.raw.length) tokens
      (token :: front, back)
    else ([token.take n], token.drop n :: tokens)

-- ---------------------------------------------------------------------------
-- Marks
-- ---------------------------------------------------------------------------

/-- Whether a run of `size` marks may open emphasis, between the characters before and behind it; a
line has no character before its first. -/
def canOpenRun (mark : Char) (size : Nat) (before after : Option Char) : Bool :=
  match after with
  | none => false
  | some next =>
    if Text.isBlank next then false
    else match before with
      | none => true
      | some prev =>
        ((mark = '*' || (mark = '~' && (1 < size || prev = '~'))) && !Text.isPunctuation next) ||
          Text.isBlank prev || Text.isPunctuation prev

/-- Whether a run of `size` marks may close emphasis. -/
def canCloseRun (mark : Char) (size : Nat) (before after : Option Char) : Bool :=
  match before with
  | none => false
  | some prev =>
    if Text.isBlank prev then false
    else match after with
      | none => true
      | some next =>
        ((mark = '*' || (mark = '~' && 1 < size)) && !Text.isPunctuation prev) ||
          (mark = '~' && prev = '~') || Text.isBlank next || Text.isPunctuation next

/-- The braces that are open where dollar signs are met. Formulas begin and end inside the same
braces, and braces count from the first dollar sign on. -/
structure Braces where
  /-- The groups that are open, innermost first; empty before the first dollar sign. -/
  groups : List Nat
  /-- The number of the next group. -/
  next : Nat

namespace Braces

def none : Braces := ⟨[], 1⟩

/-- The group of a dollar sign, and the braces from there on. -/
def dollar (b : Braces) : Nat × Braces :=
  match b.groups with
  | [] => (0, { b with groups := [0] })
  | group :: _ => (group, b)

def openBrace (b : Braces) : Braces :=
  if b.groups.isEmpty then b else ⟨b.next :: b.groups, b.next + 1⟩

/-- A brace that closes none starts a group of its own. -/
def closeBrace (b : Braces) : Braces :=
  match b.groups with
  | [] => b
  | [_] => ⟨[b.next], b.next + 1⟩
  | _ :: groups => { b with groups }

end Braces

/-- A character at which a token other than text may begin. -/
def isMark (c : Char) : Bool :=
  "\\&*_~\x60$\x7b\x7d<![]".toList.contains c

/-- The token that an escape makes, given what stands after its backslash, and its length. In a table
a bar is escaped by one backslash or by two. -/
def escape? (inTable : Bool) : List Char → Option Token
  | [] => none
  | c :: cs =>
    if c = '\x60' then some (.ticks (1 + runLength '\x60' cs) true)
    else if inTable && c = '\\' && cs.head? = some '|' then some (.replaced ['\\', '\\', '|'] ['|'])
    else if Text.isAsciiPunctuation c then some (.replaced ['\\', c] [c])
    else none

/-- The token at the front of `cs`, and the braces after it. `before` is the character in front, and
`tail` is what follows `cs` in the document. -/
def readToken (inTable : Bool) (tail : List Char) (before : Option Char) (braces : Braces) :
    List Char → Token × Braces
  | [] => (.text [], braces)
  | c :: cs =>
    let after (n : Nat) : Option Char := (cs.drop n).head?.or tail.head?
    if !isMark c then (.text (c :: cs.takeWhile fun d => !isMark d), braces)
    else if c = '\\' then ((escape? inTable cs).getD (.text [c]), braces)
    else if c = '&' then
      match Entity.read? (c :: cs) with
      | some (shown, size) => (.replaced ((c :: cs).take size) shown, braces)
      | none => (.text [c], braces)
    else if c = '*' || c = '_' || c = '~' then
      let size := 1 + runLength c cs
      let canOpen := canOpenRun c size before (after (size - 1))
      let canClose := canCloseRun c size before (after (size - 1))
      if (canOpen || canClose) && !(c = '~' && 2 < size) then (.run c size canOpen canClose, braces)
      else (.text (List.replicate size c), braces)
    else if c = '\x60' then (.ticks (1 + runLength c cs) false, braces)
    else if c = '$' then
      let (group, braces) := braces.dollar
      (.dollar ((after 0).any fun d => !isSpace d) (before.any fun d => !isSpace d) group, braces)
    else if c = '\x7b' then (.text [c], braces.openBrace)
    else if c = '\x7d' then (.text [c], braces.closeBrace)
    else if c = '<' then (if after 0 = some '\\' then .text [c] else .angle, braces)
    else if c = '!' then (if cs.head? = some '[' then .imageOpen else .text [c], braces)
    else if c = '[' then (.linkOpen, braces)
    else (.linkClose true, braces)

/-- The tokens of a part of a line. Every token takes a character, so `fuel` may be the number of
them. -/
def readTokens (inTable : Bool) (tail : List Char) :
    Nat → Option Char → Braces → List Char → List Token × Braces
  | 0, _, braces, _ => ([], braces)
  | _ + 1, _, braces, [] => ([], braces)
  | fuel + 1, before, braces, cs =>
    let (token, braces) := readToken inTable tail before braces cs
    let (tokens, braces) :=
      readTokens inTable tail fuel token.raw.getLast? braces (cs.drop token.raw.length)
    (token :: tokens, braces)

def tokensOf (inTable : Bool) (tail cs : List Char) : List Token :=
  (readTokens inTable tail cs.length none .none cs).1

-- ---------------------------------------------------------------------------
-- Lines
-- ---------------------------------------------------------------------------

/-- A line of a paragraph: the marks of containers in front of it, its text, and its end. -/
structure Line where
  margin : List Char
  text : List Char
  lineEnd : List Char
deriving Inhabited

namespace Line

/-- The line at the front of a text, whose margin is known, and what follows it. -/
def read (margin cs : List Char) : Line × List Char :=
  let text := cs.takeWhile fun c => !isLineEnd c
  let rest := cs.drop text.length
  let after := (afterLineEnd? rest).getD []
  (⟨margin, text, rest.take (rest.length - after.length)⟩, after)

def indent (line : Line) : List Char :=
  line.text.takeWhile fun c => c = ' ' || c = '\t'

/-- The text without indentation and without gaps at its end. -/
def body (line : Line) : List Char :=
  Text.dropEndWhile isGap (line.text.drop line.indent.length)

/-- The gaps at the end of the line. -/
def trail (line : Line) : List Char :=
  line.text.drop (line.indent.length + line.body.length)

/-- Whether the line ends in a backslash that no other backslash escapes. -/
def endsInBackslash (line : Line) : Bool :=
  line.trail.isEmpty && runLength '\\' line.body.reverse % 2 = 1

/-- The tokens of a line, up to the break before the next line, if there is one. -/
def tokens (next : Option Line) (braces : Braces) (line : Line) : List Token × Braces :=
  let read (body tail : List Char) := readTokens false tail body.length none braces body
  let before := if line.indent.isEmpty then [] else [Token.hidden line.indent]
  match next with
  | none =>
    let (tokens, braces) := read line.body (line.trail ++ line.lineEnd)
    (before ++ tokens, braces)
  | some next =>
    if line.endsInBackslash then
      let (tokens, braces) := read line.body.dropLast ('\\' :: line.lineEnd)
      (before ++ tokens ++ [.lineBreak true ('\\' :: line.lineEnd) next.margin], braces)
    else
      let (tokens, braces) := read line.body (line.trail ++ line.lineEnd)
      (before ++ tokens ++
        [.lineBreak (2 ≤ line.trail.length) (line.trail ++ line.lineEnd) next.margin], braces)

end Line

/-- The tokens of the lines of a paragraph. -/
def tokensOfLines (braces : Braces) : List Line → List Token
  | [] => []
  | line :: lines =>
    let (tokens, braces) := line.tokens lines.head? braces
    tokens ++ tokensOfLines braces lines

end Literate.Markdown
