import Literate.Shell.Word

/-!
# Tokens of a shell script

A script is a sequence of words, operators and redirections. `tokenize` reads them; a comment and the
blanks between tokens are left out, the ends of lines are not.
-/

namespace Literate.Shell

inductive Token where
  /-- A word, and the line on which it stands. -/
  | word (line : Nat) (word : Word)
  | operator (text : String)
  /-- An arrow with the number of the stream before it; the word behind it says where it leads. -/
  | redirection (stream : Option Nat) (arrow : String)
deriving DecidableEq

/-- The operators, a longer one before those that it begins with. -/
def operators : List String :=
  [";;", "&&", "||", ";", "&", "|", "(", ")", "\n"]

def arrows : List String :=
  [">&", ">>", ">|", "<&", ">", "<"]

/-- The first of some texts that another begins with, and what follows it. -/
def readOneOf (texts : List String) (cs : List Char) : Option (String × List Char) :=
  (texts.find? fun text => text.toList.isPrefixOf cs).map fun text => (text, cs.drop text.length)

def readToken (line : Nat) (cs : List Char) : Option (Token × List Char) :=
  let digits := cs.takeWhile Char.isDigit
  match readOneOf arrows (cs.drop digits.length) with
  | some (arrow, rest) => some (.redirection (String.ofList digits).toNat? arrow, rest)
  | none =>
    match readOneOf operators cs with
    | some (operator, rest) => some (.operator operator, rest)
    | none => (readWord cs).map fun (word, rest) => (.word line word, rest)

/-- The tokens of a text whose first character stands on `line`; none if a word of it has no end. -/
def tokensFrom : Nat → Nat → List Char → Option (List Token)
  | 0, _, _ => none
  | _ + 1, _, [] => some []
  | fuel + 1, line, c :: cs =>
    if c = ' ' || c = '\t' then tokensFrom fuel line cs
    else if c = '\\' && cs.head? = some '\n' then tokensFrom fuel (line + 1) cs.tail
    else if c = '#' then tokensFrom fuel line (cs.dropWhile (· ≠ '\n'))
    else do
      let (token, rest) ← readToken line (c :: cs)
      let taken := (c :: cs).take (cs.length + 1 - rest.length)
      return token :: (← tokensFrom fuel (line + taken.count '\n') rest)

def tokenize (script : List Char) : Option (List Token) :=
  tokensFrom (script.length + 1) 1 script

end Literate.Shell
