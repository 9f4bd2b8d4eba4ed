import Literate.Markdown.Line

/-!
# HTML in Markdown

Two questions are asked of a `<`: whether it opens a block of raw HTML, and whether it opens a tag,
comment or other construct inside a line of text. A block ends by one of two rules (`BlockEnd`). Inside
a line, a tag may be cut over several lines, in a block it may not (`afterTag?`).
-/

namespace Literate.Markdown.Html

/-- The text after `word` at the front of `cs`, letter case ignored. -/
def dropWordIgnoringCase? : List Char → List Char → Option (List Char)
  | [], cs => some cs
  | _ :: _, [] => none
  | w :: word, c :: cs => if w = c.toLower then dropWordIgnoringCase? word cs else none

def dropWord? : List Char → List Char → Option (List Char)
  | [], cs => some cs
  | _ :: _, [] => none
  | w :: word, c :: cs => if w = c then dropWord? word cs else none

def containsWord (word : List Char) : List Char → Bool
  | [] => word.isEmpty
  | c :: cs => word.isPrefixOf (c :: cs) || containsWord word cs

/-- The text after the first place where `word` stands. -/
def afterWord? (word : List Char) : List Char → Option (List Char)
  | [] => if word.isEmpty then some [] else none
  | c :: cs =>
    match dropWord? word (c :: cs) with
    | some rest => some rest
    | none => afterWord? word cs

-- ---------------------------------------------------------------------------
-- Blocks
-- ---------------------------------------------------------------------------

/-- What ends a block of raw HTML. -/
inductive BlockEnd where
  /-- The line that holds this text. -/
  | text (closer : List Char)
  /-- The line before a blank one. -/
  | blank

/-- Elements whose content is raw up to their end tag. -/
def rawElements : List String := ["pre", "style", "script", "textarea"]

/-- Constructs that are not elements, each with the text that ends it. -/
def declarations : List (String × String) := [("!--", "-->"), ("?", "?>"), ("![CDATA[", "]]>")]

/-- Elements that open a block wherever a line begins with one of their tags. -/
def blockElements : List String := [
  "address", "article", "aside", "base", "basefont", "blockquote", "body", "caption", "center", "col",
  "colgroup", "dd", "details", "dialog", "dir", "div", "dl", "dt", "fieldset", "figcaption", "figure",
  "footer", "form", "frame", "frameset", "h1", "h2", "h3", "h4", "h5", "h6", "head", "header", "hr",
  "html", "iframe", "legend", "li", "link", "main", "menu", "menuitem", "nav", "noframes", "ol",
  "optgroup", "option", "p", "param", "search", "section", "summary", "table", "tbody", "td", "tfoot",
  "th", "thead", "title", "tr", "track", "ul"]

/-- The text that ends the block which the construct after `<` opens, if it is one that ends at a
given text. -/
def closer? (cs : List Char) : Option (List Char) :=
  let element := rawElements.find? fun name =>
    match dropWordIgnoringCase? name.toList cs with
    | some rest => rest.head?.all fun c => isSpace c || c = '>'
    | none => false
  match element with
  | some name => some ("</" ++ name ++ ">").toList
  | none =>
    match declarations.find? fun (opener, _) => opener.toList.isPrefixOf cs with
    | some (_, closer) => some closer.toList
    | none =>
      match cs with
      | '!' :: c :: _ => if c.isAlpha then some ['>'] else none
      | _ => none

def opensBlockElement (cs : List Char) : Bool :=
  let body := match cs with | '/' :: rest => rest | _ => cs
  let name := body.takeWhile Char.isAlphanum
  blockElements.contains (String.ofList (name.map Char.toLower)) &&
    match body.drop name.length with
    | [] => true
    | '/' :: '>' :: _ => true
    | c :: _ => c = ' ' || c = '\t' || isLineEnd c || c = '>'

-- ---------------------------------------------------------------------------
-- Tags
-- ---------------------------------------------------------------------------

/-- The text after the gaps at its front, and after line ends if those are allowed. -/
def skipSpaces (multiline : Bool) (cs : List Char) : List Char :=
  cs.dropWhile fun c => isGap c || (multiline && isLineEnd c)

def isNameChar (c : Char) : Bool :=
  c.isAlphanum || c = '_' || c = '.' || c = ':' || c = '-'

def isBareValueChar (c : Char) : Bool :=
  !(c = '\'' || c = '"' || c = ' ' || c = '=' || c = '>' || c = '<' || c = '\x60' || isLineEnd c)

/-- The text after the value of an attribute: in quotes, or a bare word, possibly empty. -/
def afterValue? (multiline : Bool) : List Char → Option (List Char)
  | [] => none
  | c :: cs =>
    if c = '"' || c = '\'' then
      let body := cs.takeWhile fun d => d ≠ c && (multiline || !isLineEnd d)
      match cs.drop body.length with
      | d :: rest => if d = c then some rest else none
      | [] => none
    else if c = ' ' || c = '=' || c = '>' || c = '<' || c = '\x60' || isLineEnd c then none
    else some ((c :: cs).dropWhile isBareValueChar)

def afterAttribute? (multiline : Bool) : List Char → Option (List Char)
  | [] => none
  | c :: cs =>
    if c.isAlpha || c = '_' || c = ':' then
      let rest := cs.dropWhile isNameChar
      match skipSpaces multiline rest with
      | '=' :: value => afterValue? multiline (skipSpaces multiline value)
      | _ => some rest
    else none

/-- The text after the attributes of a tag, which begins with what ends the tag. There are fewer
attributes than characters, so `fuel` may be the length of the text. -/
def afterAttributes? (multiline : Bool) : Nat → List Char → Option (List Char)
  | 0, _ => none
  | fuel + 1, cs =>
    let body := skipSpaces multiline cs
    match body with
    | [] => none
    | c :: _ =>
      if c = '/' || c = '>' then some body
      else if body.length = cs.length then none
      else
        match afterAttribute? multiline body with
        | some rest => afterAttributes? multiline fuel rest
        | none => none

/-- The text after a tag, given what stands after its `<`. -/
def afterTag? (multiline : Bool) (cs : List Char) : Option (List Char) :=
  let isNameRest (c : Char) : Bool := c.isAlphanum || c = '-'
  match cs with
  | '/' :: c :: rest =>
    if c.isAlpha then
      match (rest.dropWhile isNameRest).dropWhile isGap with
      | '>' :: after => some after
      | _ => none
    else none
  | c :: rest =>
    if c.isAlpha then
      match afterAttributes? multiline (rest.length + 1) (rest.dropWhile isNameRest) with
      | some ('/' :: '>' :: after) => some after
      | some ('>' :: after) => some after
      | _ => none
    else none
  | [] => none

/-- What ends the block of raw HTML that a `<` before `cs` opens, if it opens one. `alone` asks for
any complete tag with nothing behind it on its line, which cannot end a paragraph. -/
def blockEnd? (alone : Bool) (cs : List Char) : Option BlockEnd :=
  match closer? cs with
  | some closer => some (.text closer)
  | none =>
    if opensBlockElement cs then some .blank
    else if alone && ((afterTag? false cs).any isBlankLine) then some .blank
    else none

-- ---------------------------------------------------------------------------
-- Inside a line
-- ---------------------------------------------------------------------------

/-- The text after the first run of `]` that a `>` follows at once. -/
def afterCharacterData? (cs : List Char) : Option (List Char) :=
  match cs.dropWhile (· ≠ ']') with
  | [] => none
  | brackets =>
    match brackets.dropWhile (· = ']') with
    | '>' :: rest => some rest
    | _ => none

/-- Whether the construct is copied with the marks of the containers that its lines stand in. A tag
is not; comments, instructions, declarations and character data are. -/
inductive Copying where
  | text
  | source

/-- The text after a construct of HTML, given what stands after its `<`, and how it is copied. -/
def afterInline? (cs : List Char) : Option (List Char × Copying) :=
  match cs with
  | '!' :: '-' :: '-' :: rest => (afterWord? "-->".toList ('-' :: '-' :: rest)).map (·, .source)
  | '!' :: rest =>
    match dropWord? "[CDATA[".toList rest with
    | some body => (afterCharacterData? body).map (·, .source)
    | none =>
      if rest.head?.any Char.isAlpha then (afterWord? ['>'] rest).map (·, .source) else none
  | '?' :: rest => (afterWord? "?>".toList rest).map (·, .source)
  | _ => (afterTag? true cs).map (·, .text)

-- ---------------------------------------------------------------------------
-- Addresses in angle brackets
-- ---------------------------------------------------------------------------

/-- The address in `<scheme:...>`, given what stands after the `<`, and the text behind. -/
def readUri? (cs : List Char) : Option (List Char × List Char) :=
  let scheme := cs.takeWhile fun c => c.isAlphanum || c = '.' || c = '-' || c = '+'
  match cs.drop scheme.length with
  | ':' :: rest =>
    if scheme.head?.any Char.isAlpha && 2 ≤ scheme.length && scheme.length ≤ 32 then
      let body := rest.takeWhile fun c => 0x20 < c.toNat && c ≠ '<' && c ≠ '>'
      match rest.drop body.length with
      | '>' :: after => some (scheme ++ ':' :: body, after)
      | _ => none
    else none
  | _ => none

/-- A character of the part of a mail address before the `@`. -/
def isMailboxChar (c : Char) : Bool :=
  c.isAlphanum || ".!#$%&'*+/=?^_\x60\x7b|\x7d~-".toList.contains c

/-- The labels of a host name, with the dots between them: each up to 63 letters, digits and hyphens,
no hyphen at either end. -/
def isHost (cs : List Char) : Bool :=
  (cs.splitBy fun c d => (c = '.') == (d = '.')).length % 2 = 1 &&
    (cs.splitBy fun c d => (c = '.') == (d = '.')).all fun label =>
      label = ['.'] ||
        (label.length ≤ 63 && label.all (fun c => c.isAlphanum || c = '-') &&
          label.head? ≠ some '-' && label.getLast? ≠ some '-')

/-- The address in `<mailbox@host>`, given what stands after the `<`, and the text behind. -/
def readMail? (cs : List Char) : Option (List Char × List Char) :=
  let mailbox := cs.takeWhile isMailboxChar
  match cs.drop mailbox.length with
  | '@' :: rest =>
    let host := rest.takeWhile fun c => c.isAlphanum || c = '-' || c = '.'
    match rest.drop host.length with
    | '>' :: after =>
      if mailbox.isEmpty || host.head? = some '.' || !isHost host then none
      else some (mailbox ++ '@' :: host, after)
    | _ => none
  | _ => none

/-- The address that a `<` before `cs` opens, and the text behind it. -/
def readAddress? (cs : List Char) : Option (List Char × List Char) :=
  (readUri? cs).or (readMail? cs)

end Literate.Markdown.Html
