/-!
# Runs of one character

A fence must be longer than any run of its own character in what it encloses; `longestRun` measures
the longest.
-/

namespace Literate.Text

/-- The length of the longest run of `c`, given the length of the run that stands before `cs`. -/
def longestRunFrom (c : Char) (run : Nat) : List Char → Nat
  | [] => run
  | d :: cs => if d = c then longestRunFrom c (run + 1) cs else max run (longestRunFrom c 0 cs)

def longestRun (c : Char) (cs : List Char) : Nat :=
  longestRunFrom c 0 cs

/-- A text of `n` copies of a character. -/
def repeated (n : Nat) (c : Char) : String :=
  String.ofList (List.replicate n c)

end Literate.Text
