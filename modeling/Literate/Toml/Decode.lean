import Literate.Toml.Reader

/-!
# What a document says

The settings of a session and of a fixture are read from tables with known fields. Each reader here
takes an item as a value of one type, and otherwise answers with a mismatch at the item, or at its key
if the item is not written in one place. The entries of a table are taken in the order in which they
are written, so that the first mismatch counts.
-/

namespace Literate.Toml

namespace Item

def mismatch (item : Item) (key : Span) (expected : Expected) : ReadError :=
  ⟨.mismatch (.wrongType item.found expected), item.span?.getD key⟩

def asString (key : Span) : Item → Except ReadError String
  | .string _ s => .ok s
  | item => .error (item.mismatch key .string)

def asBool (key : Span) : Item → Except ReadError Bool
  | .boolean _ b => .ok b
  | item => .error (item.mismatch key .boolean)

def asStrings (key : Span) : Item → Except ReadError (List String)
  | .array _ items => items.mapM (asString key)
  | .tables items => items.mapM (asString key)
  | item => .error (item.mismatch key .sequence)

/-- The entries as strings, by increasing key. -/
def stringsOf : Entries → Except ReadError (List (String × String))
  | [] => .ok []
  | (key, item) :: entries => do
    let s ← item.asString key.span
    let rest ← stringsOf entries
    return (key.name, s) :: rest

def asStringMap (key : Span) : Item → Except ReadError (List (String × String))
  | .table _ _ entries | .inline _ entries => do
    return (← stringsOf entries).mergeSort fun a b => a.1 ≤ b.1
  | item => .error (item.mismatch key .map)

end Item

def unknownField {α : Type} (key : Key) (fields : List String) : Except ReadError α :=
  .error ⟨.mismatch (.unknownField key.name fields), key.span⟩

/-- Reads a document into a value whose fields `set` replaces one by one. -/
def decode {α : Type} (start : α) (set : α → Key → Item → Except ReadError α) (text : String) :
    Except ReadError α := do
  (← readDocument text).foldlM (fun a (entry : Key × Item) => set a entry.1 entry.2) start

end Literate.Toml
