/-!
# Finding a text in another

`cutAt?` finds the first place where a text stands in another and gives what is before and behind it.
-/

namespace Literate.Text

/-- What stands before and behind the first place of `part` in a text. -/
def cutAt? (part : List Char) : List Char → Option (List Char × List Char)
  | [] => if part.isEmpty then some ([], []) else none
  | c :: cs =>
    if part.isPrefixOf (c :: cs) then some ([], (c :: cs).drop part.length)
    else (cutAt? part cs).map fun (before, behind) => (c :: before, behind)

def contains (text part : String) : Bool :=
  (cutAt? part.toList text.toList).isSome

end Literate.Text
