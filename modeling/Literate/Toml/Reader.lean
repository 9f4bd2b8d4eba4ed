import Literate.Toml.Scan

/-!
# Reading TOML documents

`readDocument` takes a text to its entries, in the order in which they were written, or to the first
error. `read` forgets order and places.

A document is read line by line: each line adds to the table that the last header has opened (`Draft`),
and that table is put into the root when the next header or the end of the text comes.
-/

namespace Literate.Toml

-- ---------------------------------------------------------------------------
-- Values
-- ---------------------------------------------------------------------------

/-- A failure where a value should begin, reported as a string without quotes. -/
def unquoted {α : Type} (cs : List Char) : Attempt α :=
  Attempt.within .string (Attempt.expecting [.text "\"", .text "'"] (.fail cs))

def readWord (word : String) (cs : List Char) : Option (List Char) :=
  if word.toList.isPrefixOf cs then some (cs.drop word.length) else none

/-- Reads a value other than a string, an array and a table. -/
def readScalar (size : Nat) (cs : List Char) : Attempt (Item × List Char) :=
  let at_ {α : Type} (make : Span → α → Item) (r : Attempt (α × List Char)) :
      Attempt (Item × List Char) := do
    let (a, rest) ← r
    return (make (spanOf size cs rest) a, rest)
  let word (text : String) (make : Span → Item) (otherwise : Attempt (Item × List Char)) : Attempt (Item × List Char) :=
    match readWord text cs with
    | some rest => .ok (make (spanOf size cs rest), rest)
    | none => otherwise
  match cs with
  | [] => .fail cs
  | c :: _ =>
    if c = '+' || c = '-' || c.isDigit then
      (at_ .datetime (readDatetime cs)).orElse fun _ =>
        (at_ .float (readFloat cs)).orElse fun _ => at_ .integer (readInteger cs)
    else if c = '_' then Attempt.expecting [.leadingDigit] (at_ .integer (readInteger cs))
    else if c = '.' then Attempt.expecting [.leadingDigit] (at_ .float (readFloat cs))
    else if c = 't' then word "true" (.boolean · true) (Attempt.cut (unquoted cs))
    else if c = 'f' then word "false" (.boolean · false) (Attempt.cut (unquoted cs))
    else if c = 'i' then word "inf" (.float · (1.0 / 0.0)) (unquoted cs)
    else if c = 'n' then word "nan" (.float · (0.0 / 0.0)) (unquoted cs)
    else unquoted cs

def addInline (entries : Entries) : List Key → Key → Item → Except Cause Entries
  | path, key, item =>
    modifyInline (fun inner =>
      match inner.find? key.name with
      | some _ => throw (.duplicateKey key.name none)
      | none => pure (inner ++ [(key, item)])) [] path entries

/-- The table in braces that some entries make. -/
def gatherInline (entries : Entries) : List (List Key × Item) → Except Cause Entries
  | [] => .ok entries
  | (keys, item) :: more =>
    match keys.reverse with
    | [] => gatherInline entries more
    | key :: back => do
      let entries ← addInline entries back.reverse key item
      gatherInline entries more

mutual
/-- Reads a value in a text of `size` bytes, inside `depth` arrays and tables. -/
def readValue (size : Nat) : Nat → Nat → List Char →
    Attempt (Item × List Char)
  | 0, _, cs => .fail cs
  | fuel + 1, depth, cs =>
    let nested (r : Unit → Attempt (Item × List Char)) : Attempt (Item × List Char) :=
      if depthLimit ≤ depth + 1 then Attempt.cut (.failWith cs .tooDeep) else r ()
    match cs with
    | [] => .fail cs
    | c :: rest =>
      if c = '"' || c = '\'' then do
        let (s, rest) ← readString cs
        return (.string (spanOf size cs rest) s, rest)
      else if c = '[' then
        nested fun _ => Attempt.cut do
          let (items, rest) ← match rest with
            | ']' :: _ => pure ([], rest)
            | _ => readArray size fuel (depth + 1) rest
          let rest ←
            Attempt.expecting [.text "]"] (Attempt.within .array (readMark ']' rest))
          return (.array (spanOf size cs rest) items, rest)
      else if c = '{' then
        nested fun _ => Attempt.cut do
          let (entries, close) ← readInline size fuel (depth + 1) rest
          match gatherInline [] entries with
          | .error cause => Attempt.failWith rest cause
          | .ok entries =>
            let rest ←
              Attempt.expecting [.text "\x7d"] (Attempt.within .inlineTable (readMark '\x7d' (dropBlanks close)))
            return (.inline (spanOf size cs rest) entries, rest)
      else readScalar size cs
/-- Reads the items of an array and what may stand behind the last: a comma, comments and line ends. -/
def readArray (size : Nat) : Nat → Nat → List Char →
    Attempt (List Item × List Char)
  | 0, _, cs => .fail cs
  | fuel + 1, depth, cs => do
    let item : Attempt (Item × List Char) := do
      let rest ← readFiller (cs.length + 1) cs
      let (item, rest) ← readValue size fuel depth rest
      let rest ← readFiller (rest.length + 1) rest
      return (item, rest)
    let (item, rest) ← Attempt.optional cs item
    match item, rest with
    | some item, ',' :: more =>
      let (items, rest) ← readArray size fuel depth more
      return (item :: items, rest)
    | item, rest =>
      let rest ← readFiller (rest.length + 1) rest
      return (item.toList, rest)
/-- Reads the entries of a table in braces; a comma behind the last is left. -/
def readInline (size : Nat) : Nat → Nat → List Char →
    Attempt (List (List Key × Item) × List Char)
  | 0, _, cs => .fail cs
  | fuel + 1, depth, cs => do
    let entry : Attempt ((List Key × Item) × List Char) := do
      let (keys, rest) ← readKey size cs
      Attempt.cut do
        let rest ← Attempt.expecting [.text ".", .text "="] (readMark '=' rest)
        let (item, rest) ← readValue size fuel depth (dropBlanks rest)
        return ((keys, item), dropBlanks rest)
    let (entry, rest) ← Attempt.optional cs entry
    match entry, rest with
    | some entry, ',' :: more =>
      let (entries, after) ← readInline size fuel depth more
      return (entry :: entries, if entries.isEmpty then rest else after)
    | entry, rest => return (entry.toList, rest)
end

-- ---------------------------------------------------------------------------
-- Documents
-- ---------------------------------------------------------------------------

/-- A document that is being read. -/
structure Draft where
  /-- What the headers before the last have opened. -/
  root : Entries
  /-- What stands under the last header. -/
  current : Entries
  /-- The last header, empty before the first. -/
  path : List Key
  /-- Whether it stands in double brackets. -/
  isArray : Bool
  /-- Where the last header and the entries under it are written. -/
  span : Option Span

namespace Draft

def empty : Draft := ⟨[], [], [], false, none⟩

def addEntry (keys : List Key) (item : Item) (d : Draft) : Except Cause Draft :=
  match keys.reverse with
  | [] => .ok d
  | key :: back => do
    let path := back.reverse
    let change : Change := fun origin entries =>
      if (origin == .dotted) == path.isEmpty then throw (.duplicateKey key.name none)
      else match entries.find? key.name with
        | some _ => throw (.duplicateKey key.name (some (d.path.map (·.name))))
        | none => pure (entries ++ [(key, item)])
    let current ← modifyAt true change [] path .header d.current
    let span := match d.span, item.span? with
      | some span, some last => some ⟨span.start, last.stop⟩
      | span, _ => span
    return { d with current, span }

def finishTable (d : Draft) : Except Cause Entries :=
  match d.path.reverse with
  | [] => .ok d.current
  | key :: back => do
    let names := (d.path.map (·.name)).dropLast
    let table := Item.table d.span .header d.current
    let change : Change := fun _ entries =>
      if d.isArray then
        match entries.find? key.name with
        | none => pure (entries.set key (.tables [table]))
        | some (.tables items) => pure (entries.set key (.tables (items ++ [table])))
        | some _ => throw (.duplicateKey key.name (some names))
      else
        match entries.find? key.name with
        | none => pure (entries.set key table)
        | some (.table _ .implied _) => pure (entries.set key table)
        | some _ => throw (.duplicateKey key.name (some names))
    modifyAt false change [] back.reverse .header d.root

/-- Opens the table of a header. One that is only implied is opened with what it holds. -/
def openTable (keys : List Key) (isArray : Bool) (span : Span) (d : Draft) : Except Cause Draft := do
  let root ← d.finishTable
  match keys.reverse with
  | [] => return { d with root }
  | key :: back =>
    let names := (keys.map (·.name)).dropLast
    let find : Change := fun _ entries =>
      match entries.find? key.name with
      | none => pure []
      | some (.tables _) =>
        if isArray then pure [] else throw (.duplicateKey key.name (some names))
      | some (.table _ .implied inner) =>
        if isArray then throw (.duplicateKey key.name (some names)) else pure inner
      | some _ => throw (.duplicateKey key.name (some names))
    let change : Change := fun origin entries => do
      let _ ← find origin entries
      return if isArray then entries else entries.erase key.name
    let held := (lookup find back.reverse root).getD []
    let root ← modifyAt false change [] back.reverse .header root
    return ⟨root, held, keys, isArray, some span⟩
where
  /-- What `find` answers for the table that a path leads to, if all of it is there. -/
  lookup (find : Change) : List Key → Entries → Option Entries
    | [], entries => (find .header entries).toOption
    | key :: path, entries =>
      match entries.find? key.name with
      | some (.table _ _ inner) => lookup find path inner
      | some (.tables items) =>
        match items.getLast? with
        | some (.table _ _ inner) => lookup find path inner
        | _ => none
      | _ => none

end Draft

/-- Reads a header behind its brackets: the key, and the line end. -/
def readHeader (size : Nat) (close : String) (cs : List Char) : Attempt ((List Key × List Char) × List Char) := do
  let (keys, rest) ← Attempt.cut (readKey size cs)
  let rest ← match readWord close rest with
    | some rest => pure rest
    | none => throw ⟨true, rest, ⟨none, [.text ".", .text close], none⟩⟩
  let below ← Attempt.cut (Attempt.expecting [.newline, .text "#"] (readTrailing rest))
  return ((keys, rest), below)

def readTableLine (size : Nat) (d : Draft) (cs : List Char) : Attempt (Draft × List Char) :=
  Attempt.cut <| Attempt.within .tableHeader <|
    let header (isArray : Bool) (close : String) (inner : List Char) : Attempt (Draft × List Char) := do
      let ((keys, rest), below) ← readHeader size close inner
      match d.openTable keys isArray (spanOf size cs rest) with
      | .ok d => return (d, below)
      | .error cause => Attempt.failWith cs cause
    match cs with
    | '[' :: '[' :: inner => header true "]]" inner
    | '[' :: c :: inner => header false "]" (c :: inner)
    | _ => .fail cs

def readEntryLine (size : Nat) (d : Draft) (cs : List Char) : Attempt (Draft × List Char) :=
  Attempt.cut do
    let (keys, rest) ← readKey size cs
    let rest ← Attempt.expecting [.text ".", .text "="] (readMark '=' rest)
    let body := dropBlanks rest
    let (item, rest) ← readValue size (3 * body.length + 3) 0 body
    let below ← Attempt.expecting [.newline, .text "#"] (readTrailing rest)
    match d.addEntry keys item with
    | .ok d => return (d, below)
    | .error cause => Attempt.failWith cs cause

def readLines (size : Nat) : Nat → Draft → List Char →
    Attempt (Draft × List Char)
  | 0, _, cs => .fail cs
  | fuel + 1, d, cs => do
    let cs := dropBlanks cs
    match cs with
    | [] => return (d, [])
    | c :: _ =>
      let (d, below) ←
        if c = '#' then do
          let below ← readLineEnd (dropComment cs)
          pure (d, below)
        else if c = '[' then readTableLine size d cs
        else if c = '\n' || c = '\r' then
          match afterNewline? cs with
          | some below => pure (d, below)
          | none => .fail cs
        else readEntryLine size d cs
      readLines size fuel d below

/-- The error that a failure is: it covers one character, and at the end of the text none. -/
def Failure.toError (size : Nat) (f : Failure) : ReadError :=
  ⟨.malformed f.problem, spanOf size f.rest (f.rest.drop 1)⟩

/-- Reads a document: its entries in the order in which they are written. A byte-order mark at its
front is passed over. -/
def readDocument (text : String) : Except ReadError Entries :=
  let cs := text.toList
  let size := text.utf8ByteSize
  let body := match cs with
    | '\uFEFF' :: rest => rest
    | _ => cs
  match readLines size (body.length + 1) .empty body with
  | .error f => .error (f.toError size)
  | .ok (d, _) =>
    match d.finishTable with
    | .ok entries => .ok entries
    | .error cause => .error ⟨.malformed { Problem.none with cause }, ⟨0, 0⟩⟩

/-- The entries of a document by increasing key. -/
def read (text : String) : Except ReadError (List (String × Value)) :=
  (readDocument text).map mapOf

end Literate.Toml
