import Literate.Text.Blank

/-!
# Attribute groups

An attribute group `{#id .class key="value"}` carries an identifier, classes and pairs.

* `Attr.show` writes a group.
* `Attr.readGroup?` reads one at the front of a text and gives back what follows it; the items are
  `.word`, `#word` and `key=value` (`readItems`), with ASCII blanks between them. Of several
  identifiers the last one counts.
* `Attr.parse?` reads a text that is one group and nothing else, `Attr.ofInfo` the info string of a
  fenced code block, where a bare first word is a class.
-/

namespace Literate

/-- Identifier, classes and key/value pairs attached to a node. -/
structure Attr where
  id : String
  classes : List String
  pairs : List (String × String)
deriving DecidableEq, Inhabited

namespace Attr

def empty : Attr := ⟨"", [], []⟩

def isEmpty (attr : Attr) : Bool :=
  attr.id.isEmpty && attr.classes.isEmpty && attr.pairs.isEmpty

def hasClass (attr : Attr) (name : String) : Bool :=
  attr.classes.contains name

def ofClasses (classes : List String) : Attr :=
  { empty with classes }

-- ---------------------------------------------------------------------------
-- Writing
-- ---------------------------------------------------------------------------

/-- The items of the group as they are written: the identifier, the classes, the pairs. -/
def items (attr : Attr) : List String :=
  (if attr.id.isEmpty then [] else ["#" ++ attr.id]) ++
    attr.classes.map ("." ++ ·) ++
    attr.pairs.map fun (key, value) => key ++ "=\"" ++ value ++ "\""

/-- The group in its written form. -/
protected def «show» (attr : Attr) : String :=
  "\x7b" ++ " ".intercalate attr.items ++ "\x7d"

-- ---------------------------------------------------------------------------
-- Reading
-- ---------------------------------------------------------------------------

/-- A character that a word may hold: neither a blank nor the closing brace. -/
def isWordChar (c : Char) : Bool :=
  !(Text.isBlank c || c = '}')

def wordOf (cs : List Char) : List Char :=
  cs.takeWhile isWordChar

/-- A value, after its `=`, and what follows it: the characters up to the next quote if it opens with
one, a word otherwise. -/
def readValue? : List Char → Option (List Char × List Char)
  | '"' :: cs =>
    match cs.dropWhile (· ≠ '"') with
    | [] => none
    | _ :: rest => some (cs.takeWhile (· ≠ '"'), rest)
  | cs => some (wordOf cs, cs.drop (wordOf cs).length)

/-- What the scan of a group meets after the blanks: its end, or one item; and what follows. -/
inductive Item where
  | close
  | class (name : List Char)
  | id (name : List Char)
  | pair (key value : List Char)

/-- Reads one item, or the closing brace. A key is what stands before the next `=`, and holds neither
a blank nor a closing brace. -/
def readItem? : List Char → Option (Item × List Char)
  | [] => none
  | '}' :: cs => some (.close, cs)
  | '.' :: cs =>
    if (wordOf cs).isEmpty then none else some (.class (wordOf cs), cs.drop (wordOf cs).length)
  | '#' :: cs =>
    if (wordOf cs).isEmpty then none else some (.id (wordOf cs), cs.drop (wordOf cs).length)
  | cs =>
    let key := cs.takeWhile (· ≠ '=')
    match cs.drop key.length with
    | [] => none
    | _ :: afterKey =>
      if key.isEmpty || !key.all isWordChar then none
      else (readValue? afterKey).map fun (value, rest) => (.pair key value, rest)

def addItem (attr : Attr) : Item → Attr
  | .close => attr
  | .class name => { attr with classes := attr.classes ++ [String.ofList name] }
  | .id name => { attr with id := String.ofList name }
  | .pair key value =>
    { attr with pairs := attr.pairs ++ [(String.ofList key, String.ofList value)] }

theorem length_readValue? {cs value rest : List Char} (h : readValue? cs = some (value, rest)) :
    rest.length ≤ cs.length := by
  unfold readValue? at h
  split at h
  · split at h
    · cases h
    · rename_i body _ _ _ heq
      cases h
      have := (List.dropWhile_suffix (· ≠ '"') : body.dropWhile (· ≠ '"') <:+ body).length_le
      simp only [heq, List.length_cons] at this ⊢
      omega
  · cases h
    simp

/-- Every item takes at least one character, so a scan of a group comes to an end. -/
theorem length_readItem? {cs rest : List Char} {item : Item} (h : readItem? cs = some (item, rest)) :
    rest.length < cs.length := by
  unfold readItem? at h
  split at h
  · cases h
  · cases h; simp
  · split at h
    · cases h
    · cases h; simp only [List.length_drop, List.length_cons]; omega
  · split at h
    · cases h
    · cases h; simp only [List.length_drop, List.length_cons]; omega
  · rename_i cs' _ _ _ _
    simp only at h
    split at h
    · cases h
    · rename_i afterKey heq
      split at h
      · cases h
      · obtain ⟨⟨value, rest'⟩, hv, hr⟩ := Option.map_eq_some_iff.1 h
        cases hr
        have hlen := congrArg List.length heq
        have hrest := length_readValue? hv
        simp only [List.length_drop, List.length_cons] at hlen
        simp only at hrest ⊢
        omega

/-- Reads items up to the closing brace, and gives back what follows it. -/
def readItems (attr : Attr) (cs : List Char) : Option (Attr × List Char) :=
  match _h : readItem? (cs.dropWhile Text.isAsciiBlank) with
  | none => none
  | some (.close, rest) => some (attr, rest)
  | some (item, rest) => readItems (attr.addItem item) rest
termination_by cs.length
decreasing_by
  have := length_readItem? _h
  have := (List.dropWhile_suffix Text.isAsciiBlank : cs.dropWhile Text.isAsciiBlank <:+ cs).length_le
  omega

/-- Reads a group at the front of a text. -/
def readGroup? : List Char → Option (Attr × List Char)
  | '{' :: cs => readItems empty cs
  | _ => none

def splitGroup? (s : String) : Option (Attr × String) :=
  (readGroup? s.toList).map fun (attr, rest) => (attr, String.ofList rest)

/-- Reads a text that is one group, with blanks around it or none. -/
def parseChars? (cs : List Char) : Option Attr :=
  match readGroup? (Text.trimBlanks cs) with
  | some (attr, []) => some attr
  | _ => none

def parse? (s : String) : Option Attr :=
  parseChars? s.toList

/-- Reads the info string of a code block: a group, or a bare word that becomes the first class, with
or without a group after it. A group that does not parse counts as empty. -/
def ofInfo (info : String) : Attr :=
  let cs := Text.trimBlanks info.toList
  if cs.isEmpty then empty
  else match parseChars? cs with
    | some attr => attr
    | none =>
      let word := cs.takeWhile fun c => !Text.isBlank c
      let attr := (parseChars? (cs.drop word.length)).getD empty
      { attr with classes := String.ofList word :: attr.classes }

end Attr

end Literate
