import Literate.Text.Blank
import Literate.Text.Utf8

/-!
# Code inside plain text

A formula or the address of an image is plain text to the document, but it may hold code: text between
backticks with a group of tags behind it, as in `` `1+1`{.python} ``. `Fragment.find?` finds the first.

The group holds words, each after a dot, with blanks between them or none, and at least one. Its tags
are its runs of characters other than blanks without the dots in front; two words with no blank between
them are one tag.
-/

namespace Literate

/-- Code with tags, and what stands around it in a text. -/
structure Fragment where
  before : List Char
  code : List Char
  tags : List (List Char)
  after : List Char

namespace Fragment

def isTagChar (c : Char) : Bool :=
  !(Text.isBlank c || c = '.' || c = '{' || c = '}')

/-- Reads the words of a group, up to and with its closing brace, and gives what follows. A group may
end only where `ended` allows it. -/
def afterGroup? (ended : Bool) (cs : List Char) : Option (List Char) :=
  match _h : cs.dropWhile Text.isBlank with
  | '}' :: rest => if ended then some rest else none
  | '.' :: rest =>
    if (rest.takeWhile isTagChar).isEmpty then none
    else afterGroup? true (rest.dropWhile isTagChar)
  | _ => none
termination_by cs.length
decreasing_by
  have hblank := (List.dropWhile_suffix Text.isBlank : cs.dropWhile Text.isBlank <:+ cs).length_le
  have hword := (List.dropWhile_suffix isTagChar : rest.dropWhile isTagChar <:+ rest).length_le
  rw [_h, List.length_cons] at hblank
  omega

def tagsOf (group : List Char) : List (List Char) :=
  (Text.words group).map fun word => word.dropWhile (· = '.')

/-- A fragment at the front of a text: its code, its tags, and what follows it. -/
def read? : List Char → Option (List Char × List (List Char) × List Char)
  | '\x60' :: cs =>
    let code := cs.takeWhile (· ≠ '\x60')
    match cs.drop code.length with
    | '\x60' :: '{' :: rest =>
      if code.isEmpty then none
      else (afterGroup? false rest).map fun after =>
        (code, tagsOf (rest.take (rest.length - after.length - 1)), after)
    | _ => none
  | _ => none

/-- The first fragment of a text; `seen` holds what stands in front of it, last character first. -/
def findAfter? (seen : List Char) : List Char → Option Fragment
  | [] => none
  | c :: cs =>
    match read? (c :: cs) with
    | some (code, tags, after) => some ⟨seen.reverse, code, tags, after⟩
    | none => findAfter? (c :: seen) cs

def find? (text : String) : Option Fragment :=
  findAfter? [] text.toList

def hasTag (fragment : Fragment) (tag : String) : Bool :=
  fragment.tags.contains tag.toList

/-- The bytes that a fragment takes up in a text, its backticks and braces included. -/
def span (fragment : Fragment) (text : String) : Nat × Nat :=
  (Text.Utf8.byteSize fragment.before,
    Text.Utf8.byteSize text.toList - Text.Utf8.byteSize fragment.after)

/-- The text with another one in the place of the fragment. -/
def splice (fragment : Fragment) (value : List Char) : String :=
  String.ofList (fragment.before ++ value ++ fragment.after)

end Fragment

end Literate
