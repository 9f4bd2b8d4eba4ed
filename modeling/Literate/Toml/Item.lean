import Literate.Toml.Error

/-!
# Documents as they are written

While a document is read its tables grow, and whether one may grow further depends on how it came to
be. An `Item` keeps that, together with its place in the text, and entries in the order in which they
were written. `Item.toValue` forgets all of it.

A table may be named by a header, be implied by the header of a table in it, or be written as the front
of a dotted key. `modifyAt` goes down a path from a table and makes what is missing on the way.
-/

namespace Literate.Toml

structure Key where
  name : String
  span : Span

/-- How a table came to be. -/
inductive Origin where
  /-- By its header, or as the root. -/
  | header
  /-- By the header of a table in it. -/
  | implied
  /-- By a dotted key. -/
  | dotted
deriving DecidableEq

inductive Item where
  | string (span : Span) (s : String)
  | integer (span : Span) (n : Int)
  | float (span : Span) (x : Float)
  | boolean (span : Span) (b : Bool)
  | datetime (span : Span) (d : Datetime)
  | array (span : Span) (items : List Item)
  /-- A table in braces. -/
  | inline (span : Span) (entries : List (Key × Item))
  | table (span : Option Span) (origin : Origin) (entries : List (Key × Item))
  /-- The tables under headers in double brackets. -/
  | tables (items : List Item)

instance : Inhabited Item := ⟨.boolean default false⟩

abbrev Entries := List (Key × Item)

/-- The map with an entry put in; of several for a key the last counts. -/
def insertSorted (key : String) (value : Value) : List (String × Value) → List (String × Value)
  | [] => [(key, value)]
  | (k, v) :: entries =>
    if key < k then (key, value) :: (k, v) :: entries
    else if key = k then (key, value) :: entries
    else (k, v) :: insertSorted key value entries

mutual
def Item.toValue : Item → Value
  | .string _ s => .string s
  | .integer _ n => .integer n
  | .float _ x => .float x
  | .boolean _ b => .boolean b
  | .datetime _ d => .datetime d
  | .array _ items => .array (valuesOf items)
  | .inline _ entries => .table (mapOf entries)
  | .table _ _ entries => .table (mapOf entries)
  | .tables items => .array (valuesOf items)
def valuesOf : List Item → List Value
  | [] => []
  | item :: items => item.toValue :: valuesOf items
/-- The entries of a table by increasing key. -/
def mapOf : Entries → List (String × Value)
  | [] => []
  | (key, item) :: entries => insertSorted key.name item.toValue (mapOf entries)
end

namespace Item

def kind : Item → String
  | .string .. => "string"
  | .integer .. => "integer"
  | .float .. => "float"
  | .boolean .. => "boolean"
  | .datetime .. => "datetime"
  | .array .. => "array"
  | .inline .. => "inline table"
  | .table .. => "table"
  | .tables .. => "array of tables"

def span? : Item → Option Span
  | .string span _ | .integer span _ | .float span _ | .boolean span _ | .datetime span _ => some span
  | .array span _ | .inline span _ => some span
  | .table span _ _ => span
  | .tables _ => none

/-- What an item is found to be where another type is expected. -/
def found : Item → Found
  | .string _ s => .string s
  | .integer _ n => .integer n
  | .float _ x => .float x
  | .boolean _ b => .boolean b
  | .datetime .. => .map
  | .array .. | .tables _ => .sequence
  | .inline .. | .table .. => .map

end Item

namespace Entries

def find? (key : String) (entries : Entries) : Option Item :=
  (List.find? (fun entry : Key × Item => entry.1.name = key) entries).map (·.2)

def erase (key : String) (entries : Entries) : Entries :=
  List.filter (fun entry : Key × Item => entry.1.name ≠ key) entries

/-- The entries with the item of a key replaced, which keeps its place; a new key comes last. -/
def set (key : Key) (item : Item) : Entries → Entries
  | [] => [(key, item)]
  | (k, i) :: entries => if k.name = key.name then (k, item) :: entries else (k, i) :: set key item entries

end Entries

/-- A table that is being changed: its origin and its entries. -/
abbrev Change := Origin → Entries → Except Cause Entries

/-- Changes the last of the tables under one header. -/
def changeLast (change : Item → Except Cause Item) : List Item → Except Cause (List Item)
  | [] => .ok []
  | [item] => do return [← change item]
  | item :: items => do return item :: (← changeLast change items)

/-- Changes the table that a path leads to, and makes the tables that are missing on the way. `back` is
the path so far, last key first. A dotted key does not lead into a table that has a header. -/
def modifyAt (dotted : Bool) (change : Change) (back : List String) :
    List Key → Origin → Entries → Except Cause Entries
  | [], origin, entries => change origin entries
  | key :: path, _, entries => do
    let inside (span : Option Span) (origin : Origin) (inner : Entries) : Except Cause Item := do
      let inner ← modifyAt dotted change (key.name :: back) path origin inner
      return .table span origin inner
    let item ← match entries.find? key.name with
      | none => inside none (if dotted then .dotted else .implied) []
      | some (.table span origin inner) =>
        if dotted && origin = .header then throw (.duplicateKey key.name none)
        else inside span origin inner
      | some (.tables items) =>
        let items ← changeLast (fun
          | .table span origin inner => inside span origin inner
          | item => pure item) items
        pure (.tables items)
      | some item => throw (.notTable (key.name :: back).reverse item.kind)
    return entries.set key item

/-- Changes the table in braces that the front of a dotted key leads to, and makes the tables that are
missing on the way. A table that is written in braces of its own is closed to that. -/
def modifyInline (change : Entries → Except Cause Entries) (back : List String) :
    List Key → Entries → Except Cause Entries
  | [], entries => change entries
  | key :: path, entries => do
    let item ← match entries.find? key.name with
      | none =>
        let inner ← modifyInline change (key.name :: back) path []
        pure (Item.table none .dotted inner)
      | some (.table span origin inner) =>
        let inner ← modifyInline change (key.name :: back) path inner
        pure (Item.table span origin inner)
      | some (.inline ..) => throw (.duplicateKey key.name none)
      | some item => throw (.notTable (key.name :: back).reverse item.kind)
    return entries.set key item

end Literate.Toml
