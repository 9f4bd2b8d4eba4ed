import Literate.Execution.Error
import Literate.Text.Lines

/-!
# The encoding of the interpreter's output

On some platforms the output of a child process is not UTF-8 unless a variable of its environment asks
for it. There a session may not start without that.
-/

namespace Literate.Encoding

/-- The variable that names the encoding of the interpreter's input and output. -/
def variableName : String := "PYTHONIOENCODING"

/-- The letters and digits of ASCII, in lower case. -/
def bareName (name : List Char) : List Char :=
  (name.filter Char.isAlphanum).map Char.toLower

/-- Whether a value names UTF-8, whatever its case and punctuation; what follows a colon says how
errors are handled. -/
def namesUtf8 (value : String) : Bool :=
  bareName (value.toList.takeWhile (· ≠ ':')) = "utf8".toList

/-- Refuses a value that does not name UTF-8 where the platform `needs` one. -/
def check (needs : Bool) (value : Option String) : Except ExecutionError Unit :=
  if !needs then .ok ()
  else match value with
    | none => .error (.encoding variableName "it unset")
    | some value =>
      if namesUtf8 value then .ok () else .error (.encoding variableName s!"'{value}'")

end Literate.Encoding
