import Literate.Shell.Arithmetic
import Literate.Shell.Format
import Literate.Shell.State

/-!
# Conditions

The arguments of `test` are a condition on texts and numbers.
-/

namespace Literate.Shell

/-- Whether a comparison of two texts holds, none if there is no such comparison. -/
def comparison? (operator : String) (a b : Bytes) : Option Bool :=
  let m := Format.numberOf a
  let n := Format.numberOf b
  match operator with
  | "=" | "==" => some (a = b)
  | "!=" => some (a ≠ b)
  | "-eq" => some (m = n)
  | "-ne" => some (m ≠ n)
  | "-lt" => some (m < n)
  | "-le" => some (m ≤ n)
  | "-gt" => some (n < m)
  | "-ge" => some (n ≤ m)
  | _ => none

/-- Whether a condition holds. -/
def condition : List Bytes → Bool
  | [] => false
  | [a] => !a.isEmpty
  | [op, a] =>
    match String.ofList (charsOf op) with
    | "-n" => !a.isEmpty
    | "-z" => a.isEmpty
    | "!" => a.isEmpty
    | _ => false
  | a :: op :: b :: rest =>
    match comparison? (String.ofList (charsOf op)) a b with
    | some holds =>
      match rest.map fun word => String.ofList (charsOf word) with
      | [] => holds
      | "-a" :: _ => holds && condition rest.tail
      | "-o" :: _ => holds || condition rest.tail
      | _ => false
    | none => if a = bytesOf ['!'] then !condition (op :: b :: rest) else false
termination_by words => words.length

end Literate.Shell
