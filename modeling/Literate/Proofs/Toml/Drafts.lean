import Literate.Proofs.Toml.Values

/-!
# Tables under their headers

While a document is read its tables are changed in place, each at the end of a path from the root. `Leads` says
to which table a path leads and what becomes of the whole when another table is put there (`plug`). A path may
lead to a table that is not there yet: the tables on the way are made with it, and are only implied. A header
that has not been met before adds a table at the end of its path, or one more table behind those of the same
header (`Draft.Vacant`); it is put in its place when the next header comes.

Main results: `Leads.modifyAt`, `Leads.replug`, `Draft.openTable_vacant`, `Draft.finishTable_vacant`.
-/

namespace Literate.Toml

-- ---------------------------------------------------------------------------
-- Entries
-- ---------------------------------------------------------------------------

namespace Entries

variable {key other : Key} {item next : Item} {entries : Entries}

theorem set_of_find?_none (h : entries.find? key.name = none) : entries.set key item = entries ++ [(key, item)] := by
  induction entries with
  | nil => rfl
  | cons entry entries ih =>
    obtain ⟨k, i⟩ := entry
    rw [find?, Option.map_eq_none_iff, List.find?_cons] at h
    split at h
    · cases h
    · rename_i hne
      rw [set, if_neg (by simpa using hne), ih (by rw [find?, h]; rfl), List.cons_append]

theorem find?_set (hname : other.name = key.name) (entries : Entries) (item : Item) :
    (entries.set key item).find? other.name = some item := by
  induction entries with
  | nil => simp [set, find?, hname]
  | cons entry entries ih =>
    obtain ⟨k, i⟩ := entry
    rw [set]
    split_ifs with hk
    · simp [find?, hname, hk]
    · rw [find?, List.find?_cons_of_neg (by simp [hname, hk])]
      exact ih

theorem set_set (hname : other.name = key.name) (entries : Entries) :
    (entries.set key item).set other next = entries.set key next := by
  induction entries with
  | nil => simp [set, hname]
  | cons entry entries ih =>
    obtain ⟨k, i⟩ := entry
    rw [set]
    split_ifs with hk
    · simp [set, hname, hk]
    · simp [set, hname, hk, ih]

theorem erase_of_find?_none {name : String} (h : entries.find? name = none) : entries.erase name = entries := by
  rw [find?, Option.map_eq_none_iff, List.find?_eq_none] at h
  rw [erase, List.filter_eq_self]
  intro entry hentry
  simpa using h entry hentry

end Entries

-- ---------------------------------------------------------------------------
-- Paths
-- ---------------------------------------------------------------------------

/-- The table that a path leads to, and the whole with another table in its place. -/
inductive Leads : List Key → Entries → Entries → (Entries → Entries) → Prop where
  | here (entries : Entries) : Leads [] entries entries id
  | missing {key : Key} {path : List Key} {entries inner : Entries} {plug : Entries → Entries}
      (absent : entries.find? key.name = none) (rest : Leads path [] inner plug) :
      Leads (key :: path) entries inner fun table => entries.set key (.table none .implied (plug table))
  | table {key : Key} {path : List Key} {entries between inner : Entries} {plug : Entries → Entries}
      {span : Option Span} {origin : Origin} (found : entries.find? key.name = some (.table span origin between))
      (rest : Leads path between inner plug) :
      Leads (key :: path) entries inner fun table => entries.set key (.table span origin (plug table))
  /-- Of several tables under one header the last is meant. -/
  | tables {key : Key} {path : List Key} {entries between inner : Entries} {plug : Entries → Entries}
      {items : List Item} {span : Option Span} {origin : Origin}
      (found : entries.find? key.name = some (.tables (items ++ [.table span origin between])))
      (rest : Leads path between inner plug) :
      Leads (key :: path) entries inner fun table =>
        entries.set key (.tables (items ++ [.table span origin (plug table)]))

theorem changeLast_append (change : Item → Except Cause Item) (items : List Item) (item : Item) :
    changeLast change (items ++ [item]) = (change item).map fun next => items ++ [next] := by
  induction items with
  | nil =>
    rw [List.nil_append, changeLast]
    cases change item <;> rfl
  | cons first items ih =>
    obtain ⟨second, more, hmore⟩ := List.exists_cons_of_ne_nil (show items ++ [item] ≠ [] by simp)
    rw [List.cons_append, hmore, changeLast, ← hmore, ih]
    · cases change item <;> rfl
    · simp

namespace Leads

variable {path others : List Key} {entries inner : Entries} {plug : Entries → Entries}

/-- A change at the end of a path. -/
theorem modifyAt (h : Leads path entries inner plug) {change : Change} (changed : Except Cause Entries)
    (hchange : ∀ origin, change origin inner = changed) (back : List String) (origin : Origin) :
    Toml.modifyAt false change back path origin entries = changed.map plug := by
  induction h generalizing back origin with
  | here entries =>
    rw [Toml.modifyAt, hchange]
    cases changed <;> rfl
  | missing absent rest ih =>
    rw [Toml.modifyAt]
    simp only [absent, ih hchange]
    cases changed <;> rfl
  | table found rest ih =>
    rw [Toml.modifyAt]
    simp only [found, ih hchange]
    cases changed <;> rfl
  | tables found rest ih =>
    rw [Toml.modifyAt]
    simp only [found, changeLast_append, ih hchange]
    cases changed <;> rfl

/-- What is put at the end of a path is what it leads to then. -/
theorem replug (h : Leads path entries inner plug) (hnames : others.map (·.name) = path.map (·.name))
    (table : Entries) : Leads others (plug table) table plug := by
  induction h generalizing others with
  | here entries =>
    obtain rfl : others = [] := by simpa using hnames
    exact .here table
  | @missing key path entries inner plug absent rest ih =>
    obtain ⟨other, more, rfl, hname, hmore⟩ := List.map_eq_cons_iff.mp hnames
    have hfound := Entries.find?_set hname entries (.table none .implied (plug table))
    have hnext := Leads.table hfound (ih hmore)
    simp only [Entries.set_set hname] at hnext
    exact hnext
  | @table key path entries between inner plug span origin found rest ih =>
    obtain ⟨other, more, rfl, hname, hmore⟩ := List.map_eq_cons_iff.mp hnames
    have hfound := Entries.find?_set hname entries (.table span origin (plug table))
    have hnext := Leads.table hfound (ih hmore)
    simp only [Entries.set_set hname] at hnext
    exact hnext
  | @tables key path entries between inner plug items span origin found rest ih =>
    obtain ⟨other, more, rfl, hname, hmore⟩ := List.map_eq_cons_iff.mp hnames
    have hfound := Entries.find?_set hname entries (.tables (items ++ [.table span origin (plug table)]))
    have hnext := Leads.tables hfound (ih hmore)
    simp only [Entries.set_set hname] at hnext
    exact hnext

/-- A path that leads to a table goes on to the tables in it, and to those that could be in it. -/
theorem trans {key : Key} {between : Entries} {step : Entries → Entries} (h : Leads path entries inner plug)
    (hstep : Leads [key] inner between step) :
    Leads (path ++ [key]) entries between (plug ∘ step) := by
  induction h with
  | here entries => exact hstep
  | missing absent rest ih => exact .missing absent (ih hstep)
  | table found rest ih => exact .table found (ih hstep)
  | tables found rest ih => exact .tables found (ih hstep)

/-- A path leads to one table. -/
theorem unique {other : Entries} {replug : Entries → Entries} (h : Leads path entries inner plug)
    (hother : Leads path entries other replug) : other = inner ∧ replug = plug := by
  induction h generalizing other replug with
  | here entries =>
    cases hother
    exact ⟨rfl, rfl⟩
  | missing absent rest ih =>
    cases hother with
    | missing _ hrest =>
      obtain ⟨rfl, rfl⟩ := ih hrest
      exact ⟨rfl, rfl⟩
    | table hfound => simp [absent] at hfound
    | tables hfound => simp [absent] at hfound
  | table found rest ih =>
    cases hother with
    | missing habsent => simp [found] at habsent
    | table hfound hrest =>
      rw [found] at hfound
      cases hfound
      obtain ⟨rfl, rfl⟩ := ih hrest
      exact ⟨rfl, rfl⟩
    | tables hfound => simp [found] at hfound
  | tables found rest ih =>
    cases hother with
    | missing habsent => simp [found] at habsent
    | table hfound => simp [found] at hfound
    | tables hfound hrest =>
      rw [found, Option.some.injEq, Item.tables.injEq, List.append_singleton_inj] at hfound
      obtain ⟨rfl, hlast⟩ := hfound
      cases hlast
      obtain ⟨rfl, rfl⟩ := ih hrest
      exact ⟨rfl, rfl⟩

theorem lookup (h : Leads path entries inner plug) {find : Change} (hfind : ∀ origin, find origin inner = .ok []) :
    (Draft.openTable.lookup find path entries).getD [] = [] := by
  induction h with
  | here entries => rw [Draft.openTable.lookup, hfind]; rfl
  | missing absent rest ih => rw [Draft.openTable.lookup, absent]; rfl
  | table found rest ih =>
    rw [Draft.openTable.lookup, found]
    exact ih hfind
  | tables found rest ih =>
    rw [Draft.openTable.lookup, found]
    simp only [List.getLast?_concat]
    exact ih hfind

end Leads

-- ---------------------------------------------------------------------------
-- Headers
-- ---------------------------------------------------------------------------

namespace Draft

variable {path keys : List Key} {key : Key} {whole inner : Entries} {plug : Entries → Entries} {d : Draft}

theorem addEntry_single (item : Item) (h : d.current.find? key.name = none) :
    ∃ span, d.addEntry [key] item = .ok { d with current := d.current ++ [(key, item)], span := span } := by
  rw [addEntry]
  simp only [List.reverse_singleton, List.reverse_nil, modifyAt, h]
  exact ⟨_, rfl⟩

/-- What stands under a key when a table under its header is finished: the table, or one more of several. -/
def slot (isArray : Bool) (done : List Item) (table : Item) : Item :=
  if isArray then .tables (done ++ [table]) else table

/-- Whether one more table may come under a key: the first of its name, or one more of several. -/
def Vacant (isArray : Bool) (done : List Item) (name : String) (inner : Entries) : Prop :=
  (done = [] ∧ inner.find? name = none) ∨ (isArray = true ∧ inner.find? name = some (.tables done))

/-- A header opens a table that is not there yet. -/
theorem openTable_vacant {isArray : Bool} {done : List Item} (hdone : d.finishTable = .ok whole)
    (hleads : Leads path whole inner plug) (hvacant : Vacant isArray done key.name inner) (span : Span) :
    d.openTable (path ++ [key]) isArray span = .ok ⟨plug inner, [], path ++ [key], isArray, some span⟩ := by
  rw [openTable, hdone]
  simp only [List.reverse_append, List.reverse_singleton, List.singleton_append, List.reverse_reverse, bind,
    Except.bind]
  rw [hleads.modifyAt (.ok inner), hleads.lookup]
  · rfl
  · intro origin
    rcases hvacant with ⟨-, hnone⟩ | ⟨rfl, hfound⟩
    · simp only [hnone]
      rfl
    · simp only [hfound]
      rfl
  · intro origin
    rcases hvacant with ⟨-, hnone⟩ | ⟨rfl, hfound⟩
    · simp only [hnone, Entries.erase_of_find?_none hnone]
      cases isArray <;> rfl
    · simp only [hfound]
      rfl

/-- The table is put in its place when the next header comes. -/
theorem finishTable_vacant {isArray : Bool} {done : List Item} (hleads : Leads path whole inner plug)
    (hvacant : Vacant isArray done key.name inner) (current : Entries) (span : Option Span) :
    (Draft.mk whole current (path ++ [key]) isArray span).finishTable =
      .ok (plug (inner.set key (slot isArray done (.table span .header current)))) := by
  rw [finishTable]
  simp only [List.reverse_append, List.reverse_singleton, List.singleton_append, List.reverse_reverse]
  rw [hleads.modifyAt (.ok (inner.set key (slot isArray done (.table span .header current))))]
  · rfl
  · intro origin
    rcases hvacant with ⟨rfl, hnone⟩ | ⟨rfl, hfound⟩
    · simp only [hnone]
      cases isArray <;> rfl
    · simp only [hfound]
      rfl

/-- A path goes on to the table under the last header. -/
theorem leads_slot (isArray : Bool) (done : List Item) {entries : Entries} {other : Key} (hname : other.name = key.name)
    (span : Option Span) (current : Entries) :
    Leads [other] (entries.set key (slot isArray done (.table span .header current))) current
      fun table => entries.set key (slot isArray done (.table span .header table)) := by
  have hfound := Entries.find?_set hname entries (slot isArray done (.table span .header current))
  cases isArray with
  | false =>
    have hleads := Leads.table hfound (.here current)
    simp only [Entries.set_set hname, id_eq] at hleads
    exact hleads
  | true =>
    have hleads := Leads.tables hfound (.here current)
    simp only [Entries.set_set hname, id_eq] at hleads
    exact hleads

end Draft

end Literate.Toml
