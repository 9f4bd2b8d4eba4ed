/-!
# Processes

A program is known here by what it does with its input: for all bytes that were sent to it so far, what
it has put out, and whether it waits for more or has ended (`Program`). A `Child` is a program that was
started, together with the bytes that were sent to it and the number of those that were read from it.
-/

namespace Literate

/-- What a program has put out for some input, and whether it waits for more. -/
structure Progress where
  output : List UInt8
  isWaiting : Bool

/-- What a program does with the input that came so far. Its output for more input begins with its
output for less. -/
abbrev Program := List UInt8 → Progress

/-- How the programs of a system behave when they are started with arguments and with variables added
to the environment, or why one does not start. -/
abbrev Programs :=
  (name : String) → (args : List String) → (env : List (String × String)) → Except String Program

/-- A program that was started. -/
structure Child where
  program : Program
  sent : List UInt8
  /-- How many bytes of its output were read. -/
  taken : Nat

namespace Child

def start (program : Program) : Child := ⟨program, [], 0⟩

def progress (child : Child) : Progress := child.program child.sent

def isGone (child : Child) : Bool := !child.progress.isWaiting

/-- The output that was not read yet. -/
def unread (child : Child) : List UInt8 := child.progress.output.drop child.taken

def send (child : Child) (bytes : List UInt8) : Child :=
  { child with sent := child.sent ++ bytes }

/-- Takes note that all output but `left` bytes was read. -/
def readAllBut (child : Child) (left : Nat) : Child :=
  { child with taken := child.progress.output.length - left }

end Child

end Literate
