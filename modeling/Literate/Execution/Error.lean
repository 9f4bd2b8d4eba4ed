import Literate.Document.Node
import Literate.Text.Quoted

/-!
# What stops a run

An error of the run itself ends it. What the executed code answers is never one of these, even when the
interpreter reports a mistake in it: that is output, and goes into the document like any other.
-/

namespace Literate

/-- Why a document could not be executed. -/
inductive ExecutionError where
  /-- The interpreter did not start, for the reason that the system gives. -/
  | spawn (program reason : String)
  /-- Reading or writing failed, for the reason that the system gives. -/
  | io (reason : String)
  /-- The interpreter ended its output before it was ready for more; `output` is the last of it. -/
  | terminated (output : String)
  /-- The variable that names the interpreter's encoding is wrong, and how. -/
  | encoding (name found : String)
  /-- There is work after the end of the session. -/
  | closed
  | config (reason : String)
  /-- A rewritten node does not fit its place. -/
  | shape (cause : ShapeError)
deriving DecidableEq

def ExecutionError.message : ExecutionError → String
  | .spawn program reason => s!"failed to start interpreter '{program}': {reason}"
  | .io reason => s!"interpreter I/O failed: {reason}"
  | .terminated output =>
    "interpreter session terminated unexpectedly (last output: " ++ Text.Quoted.quote output ++ ")"
  | .encoding name found =>
    s!"{name} must name a UTF-8 encoding on this platform (found {found})"
  | .closed => "interpreter session already closed"
  | .config reason => s!"invalid configuration: {reason}"
  | .shape cause => "document shape error: " ++ cause.message

end Literate
