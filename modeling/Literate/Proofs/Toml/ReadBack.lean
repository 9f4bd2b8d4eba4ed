import Literate.Proofs.Toml.Drafts

/-!
# Documents read back

A document is written table by table: the plain entries of one under its header, then the tables in it. Read in
this order, each header opens a table that is not there yet, in a table that the headers above it have opened or
implied. What has been read when the sections of a table end is the whole as it was, with that table at the end
of its path (`Puts`).

Main result: `read_printDocument`.
-/

namespace Literate.Toml

-- ---------------------------------------------------------------------------
-- Lines
-- ---------------------------------------------------------------------------

/-- Reading gets from some text and draft to others. -/
def Reaches (size : Nat) (cs : List Char) (d : Draft) (tail : List Char) (last : Draft) : Prop :=
  ∀ fuel, cs.length < fuel → ∃ less, tail.length < less ∧ readLines size fuel d cs = readLines size less last tail

section

variable {size : Nat} {cs tail far : List Char} {d last final : Draft}

theorem Reaches.refl (size : Nat) (cs : List Char) (d : Draft) : Reaches size cs d cs d :=
  fun fuel hfuel => ⟨fuel, hfuel, rfl⟩

theorem Reaches.trans (h : Reaches size cs d tail last) (hfar : Reaches size tail last far final) :
    Reaches size cs d far final := by
  intro fuel hfuel
  obtain ⟨fewer, hfewer, hread⟩ := h fuel hfuel
  obtain ⟨less, hless, hlast⟩ := hfar fewer hfewer
  exact ⟨less, hless, hread.trans hlast⟩

/-- A line that is read by itself. -/
theorem Reaches.of_step (hlength : tail.length < cs.length)
    (h : ∀ fuel, readLines size (fuel + 1) d cs = readLines size fuel last tail) : Reaches size cs d tail last := by
  intro fuel hfuel
  obtain ⟨fuel, rfl⟩ := Nat.exists_eq_succ_of_ne_zero (Nat.ne_of_gt (Nat.zero_lt_of_lt hfuel))
  exact ⟨fuel, by omega, h fuel⟩

/-- An empty line says nothing. -/
theorem reaches_feed_iff : Reaches size ('\n' :: cs) d tail last ↔ Reaches size cs d tail last := by
  have hstep : ∀ fuel, readLines size (fuel + 1) d ('\n' :: cs) = readLines size fuel d cs := by
    intro fuel
    rw [readLines, dropBlanks_of_head? (by rfl)]
    rfl
  constructor
  · intro h fuel hfuel
    obtain ⟨less, hless, hread⟩ := h (fuel + 1) (by simpa using hfuel)
    exact ⟨less, hless, by rw [← hread, hstep]⟩
  · exact (Reaches.of_step (by simp) hstep).trans

end

/-- A line that begins with a key is an entry. -/
theorem readLines_key (size : Nat) {c : Char} (hc : isBareKeyChar c = true ∨ c = '"' ∨ c = '\'') (fuel : Nat)
    (d : Draft) (cs : List Char) : readLines size (fuel + 1) d (c :: cs) = (do
      let (d, below) ← readEntryLine size d (c :: cs)
      readLines size fuel d below) := by
  have hne : ∀ other : Char, isBareKeyChar other = false → other ≠ '"' → other ≠ '\'' → c ≠ other := by
    rintro other hbare hquote hapostrophe rfl
    rcases hc with h | h | h
    · rw [hbare] at h
      cases h
    · exact hquote h
    · exact hapostrophe h
  have hblank : isTomlBlank c = false := by
    have hspace := hne ' ' (by decide) (by decide) (by decide)
    have htab := hne '\t' (by decide) (by decide) (by decide)
    simp [isTomlBlank, hspace, htab]
  have hsign := hne '#' (by decide) (by decide) (by decide)
  have hbracket := hne '[' (by decide) (by decide) (by decide)
  have hfeed := hne '\n' (by decide) (by decide) (by decide)
  have hreturn := hne '\r' (by decide) (by decide) (by decide)
  rw [readLines, dropBlanks_of_head? (by simp [hblank])]
  simp only [hsign, hbracket, hfeed, hreturn, if_false, Bool.or_false, decide_false]
  rfl

theorem readEntryLine_print {levels : Nat} (hlevels : levels < depthLimit) (size : Nat) {entry : String × Value}
    (hkept : entry.2.Kept levels) {d : Draft} (hnew : d.current.find? entry.1 = none) (tail : List Char) :
    ∃ (key : Key) (item : Item) (span : Option Span), (key.name, item.toValue) = entry ∧
      readEntryLine size d ((printEntry entry).toList ++ '\n' :: tail) =
        .ok ({ d with current := d.current ++ [(key, item)], span := span }, tail) := by
  obtain ⟨name, value⟩ := entry
  let body := value.print.toList ++ '\n' :: tail
  have htext : (printEntry (name, value)).toList ++ '\n' :: tail =
      (printPath [name]).toList ++ ' ' :: '=' :: ' ' :: body := by
    simp [printEntry, printPath, body]
  obtain ⟨keys, hkeys, hnames⟩ := readKey_printPath size (List.cons_ne_nil name [])
    (show 1 < depthLimit by decide) (List.forall_mem_nil _) (' ' :: '=' :: ' ' :: body) rfl
    (by simp [dropBlanks, isTomlBlank])
  obtain ⟨key, rfl, rfl⟩ := List.map_eq_singleton_iff.mp hnames
  obtain ⟨item, hitem, hvalue⟩ := hkept.readsBack size (3 * body.length + 3) 0 ('\n' :: tail)
    (by simp only [body, List.length_append]; omega) (by omega) (by simp [Follows])
  obtain ⟨span, hadd⟩ := Draft.addEntry_single item hnew
  obtain ⟨c, more, hc, hbegins⟩ := hkept.exists_cons
  have hblanks : dropBlanks (' ' :: body) = body := by
    simp only [body, hc]
    exact dropBlanks_begins hbegins _
  have hequals : dropBlanks (' ' :: '=' :: ' ' :: body) = '=' :: ' ' :: body := rfl
  have htrailing : readTrailing ('\n' :: tail) = .ok tail := rfl
  refine ⟨key, item, span, by rw [hvalue], ?_⟩
  rw [List.nil_append] at hkeys
  rw [htext, readEntryLine, hkeys, hequals]
  simp only [readMark, List.head?_cons, List.drop_one, List.tail_cons, if_true, bind, Except.bind, Attempt.expecting,
    Except.mapError, hblanks]
  simp only [body] at hitem ⊢
  simp only [hitem, htrailing, hadd]
  rfl

/-- An entry on a line of its own, with a key that is new. -/
theorem reaches_entry {levels : Nat} (hlevels : levels < depthLimit) (size : Nat) {entry : String × Value}
    (hkept : entry.2.Kept levels) {d : Draft} (hnew : d.current.find? entry.1 = none) (tail : List Char) :
    ∃ (key : Key) (item : Item) (span : Option Span), (key.name, item.toValue) = entry ∧
      Reaches size ((printEntry entry).toList ++ '\n' :: tail) d tail
        { d with current := d.current ++ [(key, item)], span := span } := by
  obtain ⟨key, item, span, hentry, hline⟩ := readEntryLine_print hlevels size hkept hnew tail
  obtain ⟨c, others, hfirst, hc⟩ := exists_cons_printKey entry.1
  refine ⟨key, item, span, hentry, .of_step ?_ fun fuel => ?_⟩
  · rw [List.length_append, List.length_cons]
    omega
  · have htext : (printEntry entry).toList ++ '\n' :: tail =
        c :: (others ++ " = ".toList ++ entry.2.print.toList ++ '\n' :: tail) := by simp [printEntry, hfirst]
    rw [htext] at hline ⊢
    rw [readLines_key size hc, hline]
    rfl

/-- The brackets behind a header. -/
def closing (isArray : Bool) : String :=
  if isArray then "]]" else "]"

/-- A header behind the brackets in front of it. -/
theorem readHeader_printPath {path : List String} (hpath : path ≠ []) (hdepth : path.length < depthLimit) (size : Nat)
    (isArray : Bool) (tail : List Char) : ∃ keys : List Key, keys.map (·.name) = path ∧
      readHeader size (closing isArray) ((printPath path).toList ++ ((closing isArray).toList ++ '\n' :: tail)) =
        .ok ((keys, '\n' :: tail), tail) := by
  have hblanks : dropBlanks ((closing isArray).toList ++ '\n' :: tail) = (closing isArray).toList ++ '\n' :: tail :=
    dropBlanks_of_head? (by cases isArray <;> rfl)
  obtain ⟨keys, hkeys, hnames⟩ := readKey_printPath size hpath hdepth (List.forall_mem_nil _)
    ((closing isArray).toList ++ '\n' :: tail) (by cases isArray <;> rfl)
    (by rw [hblanks]; cases isArray <;> simp [closing])
  have hword : readWord (closing isArray) ((closing isArray).toList ++ '\n' :: tail) = some ('\n' :: tail) := by
    cases isArray <;> rfl
  have htrailing : readTrailing ('\n' :: tail) = .ok tail := rfl
  refine ⟨keys, hnames, ?_⟩
  rw [List.nil_append] at hkeys
  rw [readHeader, hkeys, hblanks]
  simp only [Attempt.cut, Except.mapError, bind, Except.bind, hword, htrailing, pure, Except.pure, Attempt.expecting]

/-- The header of a table, or of one of several. -/
def headerLine (isArray : Bool) (path : List String) : String :=
  if isArray then s!"[[{printPath path}]]" else s!"[{printPath path}]"

theorem exists_readTableLine {path : List String} (hpath : path ≠ []) (hdepth : path.length < depthLimit) (size : Nat)
    (d : Draft) (isArray : Bool) (tail : List Char) : ∃ (keys : List Key) (span : Span), keys.map (·.name) = path ∧
      ∀ next, d.openTable keys isArray span = .ok next →
        readTableLine size d ((headerLine isArray path).toList ++ '\n' :: tail) = .ok (next, tail) := by
  obtain ⟨keys, hnames, hread⟩ := readHeader_printPath hpath hdepth size isArray tail
  refine ⟨keys, spanOf size ((headerLine isArray path).toList ++ '\n' :: tail) ('\n' :: tail), hnames, ?_⟩
  intro next hopen
  have hfirst : ∃ c rest, (printPath path).toList = c :: rest ∧ c ≠ '[' := by
    obtain ⟨name, names, rfl⟩ := List.exists_cons_of_ne_nil hpath
    obtain ⟨c, rest, hkey, hc⟩ := exists_cons_printKey name
    have hne : c ≠ '[' := by
      rintro rfl
      rcases hc with hc | hc | hc <;> cases hc
    cases names with
    | nil => exact ⟨c, rest, by simp [printPath, hkey], hne⟩
    | cons => exact ⟨c, _, by simp [printPath, hkey]; rfl, hne⟩
  obtain ⟨c, rest, htext, hc⟩ := hfirst
  cases isArray with
  | true =>
    have hheader : (headerLine true path).toList ++ '\n' :: tail =
        '[' :: '[' :: ((printPath path).toList ++ ((closing true).toList ++ '\n' :: tail)) := by
      simp [headerLine, closing, toString]
    have hinside : readHeader size "]]" ((printPath path).toList ++ ((closing true).toList ++ '\n' :: tail)) =
        .ok ((keys, '\n' :: tail), tail) := hread
    rw [hheader] at hopen ⊢
    rw [readTableLine]
    simp only [hinside, hopen, bind, Except.bind]
    rfl
  | false =>
    have hheader : (headerLine false path).toList ++ '\n' :: tail =
        '[' :: c :: (rest ++ ((closing false).toList ++ '\n' :: tail)) := by
      simp [headerLine, closing, toString, htext]
    have hinside : readHeader size "]" (c :: (rest ++ ((closing false).toList ++ '\n' :: tail))) =
        .ok ((keys, '\n' :: tail), tail) := by
      rw [← hread, htext, List.cons_append]
      rfl
    rw [hheader] at hopen ⊢
    unfold readTableLine
    split
    · rename_i heq
      exact absurd (List.cons.inj (List.cons.inj heq).2).1 hc
    · rename_i heq
      obtain ⟨rfl, rfl⟩ := List.cons.inj (List.cons.inj heq).2
      simp only [hinside, hopen, bind, Except.bind]
      rfl
    · rename_i hother
      exact absurd rfl (hother _ _)

/-- The header of a table, or of one of several, on a line of its own. -/
theorem reaches_header {path : List String} (hpath : path ≠ []) (hdepth : path.length < depthLimit) (size : Nat)
    (d : Draft) (isArray : Bool) (tail : List Char) : ∃ (keys : List Key) (span : Span), keys.map (·.name) = path ∧
      ∀ next, d.openTable keys isArray span = .ok next →
        Reaches size ((headerLine isArray path).toList ++ '\n' :: tail) d tail next := by
  obtain ⟨keys, span, hnames, hline⟩ := exists_readTableLine hpath hdepth size d isArray tail
  refine ⟨keys, span, hnames, fun next hopen => .of_step ?_ fun fuel => ?_⟩
  · rw [List.length_append, List.length_cons]
    omega
  · have hfirst : ∃ rest, (headerLine isArray path).toList ++ '\n' :: tail = '[' :: rest := by
      cases isArray <;> exact ⟨_, by simp [headerLine, toString]; rfl⟩
    obtain ⟨rest, hrest⟩ := hfirst
    have hread := hline next hopen
    rw [hrest] at hread ⊢
    rw [readLines, dropBlanks_of_head? (by rfl)]
    simp only [hread]
    rfl

/-- Lines with their line feeds. -/
def feedLines (lines : List String) : List Char :=
  (lines.map String.toList).flatMap (· ++ ['\n'])

theorem feedLines_cons (line : String) (lines : List String) (tail : List Char) :
    feedLines (line :: lines) ++ tail = line.toList ++ '\n' :: (feedLines lines ++ tail) := by
  simp [feedLines]

theorem feedLines_append (lines more : List String) :
    feedLines (lines ++ more) = feedLines lines ++ feedLines more := by
  simp [feedLines]

/-- The plain entries of a table, of which no two have one key. -/
theorem reaches_printEntries {levels : Nat} (hlevels : levels < depthLimit) (size : Nat)
    {entries : List (String × Value)} (hkept : ∀ entry ∈ entries, entry.2.Kept levels) (d : Draft)
    (hdistinct : ((plainOf d.current ++ entries).map (·.1)).Nodup) (tail : List Char) :
    ∃ (more : Entries) (span : Option Span), plainOf more = entries ∧
      Reaches size (feedLines (printEntries entries) ++ tail) d tail
        { d with current := d.current ++ more, span := span } := by
  induction entries generalizing d with
  | nil => exact ⟨[], d.span, rfl, by simpa [printEntries, feedLines] using Reaches.refl size tail d⟩
  | cons entry entries ih =>
    obtain ⟨hentry, hentries⟩ := List.forall_mem_cons.mp hkept
    have hnew : d.current.find? entry.1 = none := by
      refine find?_eq_none fun hmem => ?_
      rw [List.map_append, List.nodup_append] at hdistinct
      exact hdistinct.2.2 _ hmem entry.1 (by simp) rfl
    obtain ⟨key, item, span, rfl, hread⟩ := reaches_entry hlevels size hentry hnew
      (feedLines (printEntries entries) ++ tail)
    obtain ⟨more, last, hmore, hrest⟩ := ih hentries { d with current := d.current ++ [(key, item)], span := span }
      (by simpa [plainOf_append, plainOf] using hdistinct)
    refine ⟨(key, item) :: more, last, congrArg ((key.name, item.toValue) :: ·) hmore, ?_⟩
    rw [printEntries_eq_map, List.map_cons, feedLines_cons, ← printEntries_eq_map]
    refine hread.trans ?_
    simpa using hrest

-- ---------------------------------------------------------------------------
-- Sections
-- ---------------------------------------------------------------------------

/-- Sections as they are written below others. -/
def sectionsText (sections : List Section) : List Char :=
  feedLines (sectionLines false sections)

theorem sectionLines_append (sections more : List Section) :
    sectionLines false (sections ++ more) = sectionLines false sections ++ sectionLines false more := by
  induction sections with
  | nil => rfl
  | cons sec sections ih =>
    obtain ⟨header, body⟩ := sec
    cases header <;> simp [sectionLines, ih]

theorem sectionsText_append (sections more : List Section) :
    sectionsText (sections ++ more) = sectionsText sections ++ sectionsText more := by
  rw [sectionsText, sectionLines_append, feedLines_append, ← sectionsText, ← sectionsText]

/-- Whether a path of these names leads somewhere, and to which table. -/
def Ready (names : List String) (whole inner : Entries) : Prop :=
  ∀ path : List Key, path.map (·.name) = names → ∃ plug, Leads path whole inner plug

/-- The whole with another table at the end of a path of these names. -/
def Puts (names : List String) (whole inner next final : Entries) : Prop :=
  ∃ (path : List Key) (plug : Entries → Entries), path.map (·.name) = names ∧ Leads path whole inner plug ∧
    final = plug next

theorem Puts.ready {names : List String} {whole inner next final : Entries} (h : Puts names whole inner next final) :
    Ready names final next := by
  obtain ⟨path, plug, hnames, hleads, rfl⟩ := h
  exact fun other hother => ⟨plug, hleads.replug (hother.trans hnames.symm) next⟩

theorem Puts.trans {names : List String} {whole inner next final last others : Entries}
    (h : Puts names whole inner next final) (hmore : Puts names final next last others) :
    Puts names whole inner last others := by
  obtain ⟨path, plug, hnames, hleads, rfl⟩ := h
  obtain ⟨other, replug, hother, hreleads, rfl⟩ := hmore
  obtain ⟨-, rfl⟩ := (hleads.replug (hother.trans hnames.symm) next).unique hreleads
  exact ⟨path, replug, hnames, hleads, rfl⟩

/-- Reading some text finishes a whole in which another table stands at the end of a path. -/
def Finishes (size : Nat) (cs : List Char) (d : Draft) (tail : List Char) (names : List String)
    (whole inner next : Entries) : Prop :=
  ∃ (last : Draft) (final : Entries), Reaches size cs d tail last ∧ last.finishTable = .ok final ∧
    Puts names whole inner next final

/-- The sections of a value below a path, read where there is nothing yet under its key. -/
def Value.SectionsRead (levels : Nat) (v : Value) : Prop :=
  ∀ (size : Nat) (names : List String) (key : String) (whole inner : Entries) (d : Draft) (tail : List Char),
    names.length + 1 + levels < depthLimit → Ready names whole inner → inner.find? key = none →
    d.finishTable = .ok whole →
      ∃ (k : Key) (item : Item), (k.name, item.toValue) = (key, v) ∧
        Finishes size (sectionsText (v.sections (names ++ [key])) ++ tail) d tail names whole inner
          (inner ++ [(k, item)])

/-- The entries of a table that have headers. -/
def headed (entries : List (String × Value)) : List (String × Value) :=
  entries.filter fun entry => entry.2.hasHeader

theorem sections_of_not_hasHeader {v : Value} (h : v.hasHeader = false) (path : List String) :
    v.sections path = [] := by
  cases v with
  | array items => rw [Value.sections, h]; rfl
  | table entries => cases h
  | _ => rfl

/-- The sections below a table, one entry after the other. -/
theorem finishes_entrySections {levels : Nat} {entries : List (String × Value)}
    (hread : ∀ entry ∈ entries, entry.2.hasHeader = true → entry.2.SectionsRead levels) (size : Nat)
    {names : List String} (hdepth : names.length + 1 + levels < depthLimit) {whole inner : Entries} {d : Draft}
    (hready : Ready names whole inner) (hdistinct : ((plainOf inner ++ headed entries).map (·.1)).Nodup)
    (hdone : d.finishTable = .ok whole) (tail : List Char) :
    ∃ more : Entries, plainOf more = headed entries ∧
      ((more = [] ∧ sectionsText (entrySections names entries) = []) ∨
        Finishes size (sectionsText (entrySections names entries) ++ tail) d tail names whole inner
          (inner ++ more)) := by
  induction entries generalizing whole inner d with
  | nil => exact ⟨[], rfl, .inl ⟨rfl, rfl⟩⟩
  | cons entry entries ih =>
    obtain ⟨hentry, hentries⟩ := List.forall_mem_cons.mp hread
    obtain ⟨key, v⟩ := entry
    rw [entrySections, sectionsText_append]
    cases hheader : v.hasHeader with
    | false =>
      have hheaded : headed ((key, v) :: entries) = headed entries := List.filter_cons_of_neg (by simp [hheader])
      rw [hheaded] at hdistinct ⊢
      rw [sections_of_not_hasHeader hheader]
      exact ih hentries hready hdistinct hdone
    | true =>
      have hheaded : headed ((key, v) :: entries) = (key, v) :: headed entries :=
        List.filter_cons_of_pos (by simp [hheader])
      rw [hheaded] at hdistinct ⊢
      have hnew : inner.find? key = none := by
        refine find?_eq_none fun hmem => ?_
        rw [List.map_append, List.nodup_append] at hdistinct
        exact hdistinct.2.2 _ hmem key (by simp) rfl
      obtain ⟨k, item, hmeans, last, final, hreach, hfinal, hputs⟩ := hentry hheader size names key whole inner d
        (sectionsText (entrySections names entries) ++ tail) hdepth hready hnew hdone
      obtain ⟨more, hmore, hrest⟩ := ih hentries hputs.ready
        (by simpa [plainOf_append, plainOf, hmeans] using hdistinct) hfinal
      refine ⟨(k, item) :: more, by rw [plainOf, List.map_cons, ← plainOf, hmore, hmeans], .inr ?_⟩
      rw [List.append_assoc]
      rcases hrest with ⟨rfl, hnone⟩ | ⟨others, all, hreaches, hall, hmoves⟩
      · rw [hnone, List.nil_append] at hreach ⊢
        exact ⟨last, final, hreach, hfinal, hputs⟩
      · refine ⟨others, all, hreach.trans hreaches, hall, ?_⟩
        simpa using hputs.trans hmoves

/-- The entries of a table that have no headers. -/
def unheaded (entries : List (String × Value)) : List (String × Value) :=
  entries.filter fun entry => !entry.2.hasHeader

theorem perm_headed (entries : List (String × Value)) : (unheaded entries ++ headed entries).Perm entries := by
  have hperm := List.filter_append_perm (fun entry : String × Value => !entry.2.hasHeader) entries
  simpa [unheaded, headed] using hperm

theorem nodup_keys {entries : List (String × Value)} (h : Increasing entries) : (entries.map (·.1)).Nodup :=
  List.Pairwise.imp ne_of_lt h

section

variable {names : List String} {path : List Key} {k : Key} {whole inner : Entries} {plug : Entries → Entries}
  (hpath : path.map (·.name) = names) (hleads : Leads path whole inner plug) {isArray : Bool} {done : List Item}
  {span : Option Span} {plain : Entries}
include hpath hleads

/-- A path to the table that has been put under a key. -/
theorem leads_under {other : List Key} (hother : other.map (·.name) = names ++ [k.name]) :
    Leads other (plug (inner.set k (Draft.slot isArray done (.table span .header plain)))) plain
      (plug ∘ fun table => inner.set k (Draft.slot isArray done (.table span .header table))) := by
  obtain ⟨front, last, rfl, hfront, hlast⟩ := List.map_eq_append_iff.mp hother
  obtain ⟨key, rfl, hname⟩ := List.map_eq_singleton_iff.mp hlast
  exact (hleads.replug (hfront.trans hpath.symm) _).trans (Draft.leads_slot isArray done hname span plain)

theorem ready_under :
    Ready (names ++ [k.name]) (plug (inner.set k (Draft.slot isArray done (.table span .header plain)))) plain :=
  fun _ hother => ⟨_, leads_under hpath hleads hother⟩

/-- A change of that table is a change of the one that it is in. -/
theorem Puts.of_under {next final : Entries} (h : Puts (names ++ [k.name])
      (plug (inner.set k (Draft.slot isArray done (.table span .header plain)))) plain next final) :
    Puts names whole inner (inner.set k (Draft.slot isArray done (.table span .header next))) final := by
  obtain ⟨other, replug, hother, hreleads, rfl⟩ := h
  obtain ⟨-, rfl⟩ := (leads_under hpath hleads hother).unique hreleads
  exact ⟨path, plug, hpath, hleads, rfl⟩

end

/-- A header, and the plain entries under it. -/
theorem reaches_plainTable {levels : Nat} {entries : List (String × Value)}
    (hkept : ∀ entry ∈ entries, entry.2.Kept levels) (hdistinct : ((unheaded entries).map (·.1)).Nodup) (size : Nat)
    {names : List String} (hdepth : names.length + 1 + levels < depthLimit) (key : String) {whole inner : Entries}
    {d : Draft} (hready : Ready names whole inner) {isArray : Bool} {done : List Item}
    (hvacant : Draft.Vacant isArray done key inner) (hdone : d.finishTable = .ok whole) (tail : List Char) :
    ∃ (path : List Key) (k : Key) (plug : Entries → Entries) (span : Option Span) (plain : Entries) (last : Draft),
      path.map (·.name) = names ∧ k.name = key ∧ Leads path whole inner plug ∧ plainOf plain = unheaded entries ∧
      Reaches size ((headerLine isArray (names ++ [key])).toList ++ '\n' ::
        (feedLines (plainLines entries) ++ tail)) d tail last ∧
      last.finishTable = .ok (plug (inner.set k (Draft.slot isArray done (.table span .header plain)))) := by
  have hne : names ++ [key] ≠ [] := List.concat_ne_nil key names
  have hlength : (names ++ [key]).length < depthLimit := by
    rw [List.length_append, List.length_singleton]
    omega
  obtain ⟨keys, start, hkeys, hheader⟩ := reaches_header hne hlength size d isArray
    (feedLines (plainLines entries) ++ tail)
  obtain ⟨path, back, rfl, hpath, hback⟩ := List.map_eq_append_iff.mp hkeys
  obtain ⟨k, rfl, rfl⟩ := List.map_eq_singleton_iff.mp hback
  obtain ⟨plug, hleads⟩ := hready path hpath
  have hopened := hheader _ (Draft.openTable_vacant hdone hleads hvacant start)
  have hlevels : levels < depthLimit := by omega
  have hinside : ∀ entry ∈ unheaded entries, entry.2.Kept levels :=
    fun entry hentry => hkept entry (List.mem_of_mem_filter hentry)
  obtain ⟨plain, span, hplain, hentries⟩ := reaches_printEntries hlevels size hinside
    ⟨plug inner, [], path ++ [k], isArray, some start⟩ hdistinct tail
  exact ⟨path, k, plug, span, plain, _, hpath, rfl, hleads, hplain, hopened.trans hentries,
    Draft.finishTable_vacant (hleads.replug rfl inner) hvacant plain span⟩

/-- A header, the plain entries under it, and the sections of the others. -/
theorem finishes_headed {levels : Nat} {entries : List (String × Value)}
    (hkept : ∀ entry ∈ entries, entry.2.Kept levels) (hincreasing : Increasing entries)
    (hread : ∀ entry ∈ entries, entry.2.hasHeader = true → entry.2.SectionsRead levels) (size : Nat)
    {names : List String} (hdepth : names.length + 1 + (levels + 1) < depthLimit) (key : String)
    {whole inner : Entries} {d : Draft} (hready : Ready names whole inner) {isArray : Bool} {done : List Item}
    (hvacant : Draft.Vacant isArray done key inner) (hdone : d.finishTable = .ok whole) (tail : List Char) :
    ∃ (k : Key) (item : Item), (k.name, item.toValue) = (key, .table entries) ∧
      Finishes size (sectionsText (⟨some (headerLine isArray (names ++ [key])), plainLines entries⟩ ::
          entrySections (names ++ [key]) entries) ++ tail) d tail names whole inner
        (inner.set k (Draft.slot isArray done item)) := by
  have hnodup : ((unheaded entries ++ headed entries).map (·.1)).Nodup :=
    ((perm_headed entries).map (·.1)).nodup_iff.mpr (nodup_keys hincreasing)
  have hdistinct : ((unheaded entries).map (·.1)).Nodup := by
    rw [List.map_append, List.nodup_append] at hnodup
    exact hnodup.1
  let below := sectionsText (entrySections (names ++ [key]) entries) ++ tail
  have htext : sectionsText (⟨some (headerLine isArray (names ++ [key])), plainLines entries⟩ ::
      entrySections (names ++ [key]) entries) ++ tail =
      '\n' :: ((headerLine isArray (names ++ [key])).toList ++ '\n' :: (feedLines (plainLines entries) ++ below)) := by
    simp [sectionsText, sectionLines, feedLines, below]
  obtain ⟨path, k, plug, span, plain, last, hpath, rfl, hleads, hplain, hreach, hlast⟩ :=
    reaches_plainTable hkept hdistinct size (Nat.lt_of_succ_lt hdepth) key hready hvacant hdone below
  have hunder : (names ++ [k.name]).length + 1 + levels < depthLimit := by
    rw [List.length_append, List.length_singleton]
    omega
  obtain ⟨more, hmore, hrest⟩ := finishes_entrySections hread size hunder (ready_under hpath hleads)
    (by rw [hplain]; exact hnodup) hlast tail
  have hvalue : (Item.table span .header (plain ++ more)).toValue = .table entries := by
    have hperm : (plainOf (plain ++ more)).Perm entries := by
      rw [plainOf_append, hplain, hmore]
      exact perm_headed entries
    rw [Item.toValue, mapOf_eq_of_perm hperm hincreasing]
  refine ⟨k, .table span .header (plain ++ more), by rw [hvalue], ?_⟩
  rw [htext]
  have hheader := reaches_feed_iff.mpr hreach
  rcases hrest with ⟨rfl, hnone⟩ | ⟨others, final, hreaches, hfinal, hputs⟩
  · have hbelow : below = tail := by simp only [below, hnone, List.nil_append]
    rw [hbelow] at hheader ⊢
    rw [List.append_nil]
    exact ⟨last, _, hheader, hlast, path, plug, hpath, hleads, rfl⟩
  · exact ⟨others, final, hheader.trans hreaches, hfinal, hputs.of_under hpath hleads⟩

/-- What is needed of a table so that its sections are read. -/
structure TableReads (levels : Nat) (entries : List (String × Value)) : Prop where
  kept : ∀ entry ∈ entries, entry.2.Kept levels
  increasing : Increasing entries
  inside : ∀ entry ∈ entries, entry.2.hasHeader = true → entry.2.SectionsRead levels

/-- A table with a header of its own, or only with those of the tables in it. -/
theorem Value.SectionsRead.table {levels : Nat} {entries : List (String × Value)} (h : TableReads levels entries) :
    (Value.table entries).SectionsRead (levels + 1) := by
  intro size names key whole inner d tail hdepth hready hnew hdone
  rw [Value.sections]
  by_cases hbare : ((plainLines entries).isEmpty && !entries.isEmpty) = true
  · rw [if_pos hbare, List.nil_append]
    rw [Bool.and_eq_true, List.isEmpty_iff, Bool.not_eq_true', List.isEmpty_eq_false_iff] at hbare
    obtain ⟨hplain, hne⟩ := hbare
    have hheaded : headed entries = entries := by
      rw [plainLines_eq_map, List.map_eq_nil_iff, List.filter_eq_nil_iff] at hplain
      exact List.filter_eq_self.mpr fun entry hentry => by simpa using hplain entry hentry
    have hbelow : Ready (names ++ [key]) whole [] := by
      intro other hother
      obtain ⟨path, last, rfl, hpath, hlast⟩ := List.map_eq_append_iff.mp hother
      obtain ⟨k, rfl, rfl⟩ := List.map_eq_singleton_iff.mp hlast
      obtain ⟨plug, hleads⟩ := hready path hpath
      exact ⟨_, hleads.trans (.missing hnew (.here []))⟩
    have hunder : (names ++ [key]).length + 1 + levels < depthLimit := by
      rw [List.length_append, List.length_singleton]
      omega
    obtain ⟨more, hmore, hrest⟩ := finishes_entrySections h.inside size hunder hbelow
      (by rw [hheaded]; exact nodup_keys h.increasing) hdone tail
    rw [hheaded] at hmore
    rcases hrest with ⟨rfl, -⟩ | ⟨last, final, hreach, hfinal, other, replug, hother, hreleads, rfl⟩
    · exact absurd hmore.symm hne
    · obtain ⟨path, back, rfl, hpath, hback⟩ := List.map_eq_append_iff.mp hother
      obtain ⟨k, rfl, rfl⟩ := List.map_eq_singleton_iff.mp hback
      obtain ⟨plug, hleads⟩ := hready path hpath
      obtain ⟨-, rfl⟩ := (hleads.trans (.missing hnew (.here []))).unique hreleads
      have hvalue : (Item.table none .implied more).toValue = .table entries := by
        rw [Item.toValue, mapOf_eq_of_perm (hmore ▸ .refl _) h.increasing]
      refine ⟨k, .table none .implied more, by rw [hvalue], last, _, hreach, hfinal, path, plug, hpath, hleads, ?_⟩
      rw [← Entries.set_of_find?_none hnew]
      rfl
  · rw [if_neg hbare]
    have hvacant : Draft.Vacant false [] key inner := .inl ⟨rfl, hnew⟩
    obtain ⟨k, item, hmeans, hfinishes⟩ := finishes_headed h.kept h.increasing h.inside size hdepth key hready hvacant
      hdone tail
    refine ⟨k, item, hmeans, ?_⟩
    rw [Prod.mk.injEq] at hmeans
    rw [← Entries.set_of_find?_none (by rw [hmeans.1]; exact hnew)]
    exact hfinishes

/-- The tables of an array, each under a header of its own. -/
theorem finishes_itemSections {levels : Nat} {entries : List (String × Value)}
    {items : List (List (String × Value))} (h : ∀ table ∈ entries :: items, TableReads levels table) (size : Nat)
    {names : List String} (hdepth : names.length + 1 + (levels + 1) < depthLimit) (key : String)
    {whole inner : Entries} {d : Draft} (hready : Ready names whole inner) {done : List Item}
    (hvacant : Draft.Vacant true done key inner) (hdone : d.finishTable = .ok whole) (tail : List Char) :
    ∃ (k : Key) (more : List Item), k.name = key ∧ valuesOf more = (entries :: items).map .table ∧
      Finishes size (sectionsText (itemSections (names ++ [key]) ((entries :: items).map .table)) ++ tail) d tail
        names whole inner (inner.set k (.tables (done ++ more))) := by
  induction items generalizing entries whole inner d done with
  | nil =>
    have hentries := h entries List.mem_cons_self
    obtain ⟨k, item, hmeans, hfinishes⟩ := finishes_headed hentries.kept hentries.increasing hentries.inside size hdepth
      key hready hvacant hdone tail
    rw [Prod.mk.injEq] at hmeans
    refine ⟨k, [item], hmeans.1, by rw [valuesOf, valuesOf, hmeans.2]; rfl, ?_⟩
    rw [List.map_singleton, itemSections, itemSections, List.append_nil]
    exact hfinishes
  | cons next items ih =>
    obtain ⟨hentries, hitems⟩ := List.forall_mem_cons.mp h
    obtain ⟨k, item, hmeans, last, final, hreach, hfinal, hputs⟩ := finishes_headed hentries.kept hentries.increasing
      hentries.inside size hdepth key hready hvacant hdone
      (sectionsText (itemSections (names ++ [key]) ((next :: items).map .table)) ++ tail)
    rw [Prod.mk.injEq] at hmeans
    obtain ⟨hname, hvalue⟩ := hmeans
    have hnext : Draft.Vacant true (done ++ [item]) key (inner.set k (Draft.slot true done item)) :=
      .inr ⟨rfl, by rw [← hname]; exact Entries.find?_set rfl inner _⟩
    obtain ⟨other, more, hother, hmore, others, all, hreaches, hall, hmoves⟩ := ih hitems hputs.ready hnext hfinal
    refine ⟨k, item :: more, hname, by rw [valuesOf, hvalue, hmore]; rfl, ?_⟩
    rw [Entries.set_set (hother.trans hname.symm), List.append_assoc] at hmoves
    rw [List.map_cons, itemSections, sectionsText_append, List.append_assoc]
    exact ⟨others, all, hreach.trans hreaches, hall, hputs.trans hmoves⟩

theorem exists_tables_of_hasHeader {items : List Value} (h : (Value.array items).hasHeader = true) :
    ∃ (entries : List (String × Value)) (others : List (List (String × Value))),
      items = (entries :: others).map .table := by
  rw [Value.hasHeader, Bool.and_eq_true, Bool.not_eq_true', List.isEmpty_eq_false_iff, List.all_eq_true] at h
  obtain ⟨hne, htables⟩ := h
  have hall : ∀ items : List Value, (∀ item ∈ items, item.isTable = true) →
      ∃ tables : List (List (String × Value)), items = tables.map .table := by
    intro items
    induction items with
    | nil => exact fun _ => ⟨[], rfl⟩
    | cons item items ih =>
      intro htables
      obtain ⟨hitem, hitems⟩ := List.forall_mem_cons.mp htables
      obtain ⟨tables, rfl⟩ := ih hitems
      cases item with
      | table entries => exact ⟨entries :: tables, rfl⟩
      | _ => cases hitem
  obtain ⟨tables, rfl⟩ := hall items htables
  cases tables with
  | nil => exact absurd rfl hne
  | cons entries others => exact ⟨entries, others, rfl⟩

theorem Value.SectionsRead.array {levels : Nat} {entries : List (String × Value)}
    {others : List (List (String × Value))} (h : ∀ table ∈ entries :: others, TableReads levels table) :
    (Value.array ((entries :: others).map .table)).SectionsRead (levels + 1 + 1) := by
  intro size names key whole inner d tail hdepth hready hnew hdone
  obtain ⟨k, more, rfl, hmore, hfinishes⟩ := finishes_itemSections h size (by omega) key hready
    (.inl ⟨rfl, hnew⟩) hdone tail
  refine ⟨k, .tables more, by rw [Item.toValue, hmore], ?_⟩
  rw [Value.sections, if_pos (by simp [Value.hasHeader, Value.isTable]), ← Entries.set_of_find?_none hnew]
  exact hfinishes

/-- The sections of a value are read as the value, and those of the tables in an array as these tables. -/
theorem Value.Kept.sectionsRead {levels : Nat} {v : Value} (h : v.Kept levels) :
    (v.hasHeader = true → v.SectionsRead levels) ∧
      ∀ entries, v = .table entries → ∃ inner, levels = inner + 1 ∧ TableReads inner entries := by
  induction h with
  | string | boolean => exact ⟨nofun, nofun⟩
  | @table levels entries increasing inside ih =>
    have hreads : TableReads levels entries := ⟨inside, increasing, fun entry hentry => (ih entry hentry).1⟩
    refine ⟨fun _ => .table hreads, ?_⟩
    rintro _ ⟨⟩
    exact ⟨levels, rfl, hreads⟩
  | @array levels items inside ih =>
    refine ⟨fun hheader => ?_, nofun⟩
    obtain ⟨entries, others, rfl⟩ := exists_tables_of_hasHeader hheader
    obtain ⟨inner, rfl, -⟩ := (ih (.table entries) (by simp)).2 entries rfl
    refine .array fun table htable => ?_
    obtain ⟨same, hsame, hreads⟩ := (ih (.table table) (List.mem_map_of_mem htable)).2 table rfl
    obtain rfl : inner = same := by omega
    exact hreads

-- ---------------------------------------------------------------------------
-- Documents
-- ---------------------------------------------------------------------------

/-- The first section of a document has no empty line in front of it. -/
theorem feedLines_sectionLines (first : Bool) {sections : List Section}
    (h : ∀ sec ∈ sections, ∃ line, sec.header = some line) :
    (sections = [] ∧ feedLines (sectionLines first sections) = []) ∨
      sectionsText sections = (if first then ['\n'] else []) ++ feedLines (sectionLines first sections) := by
  cases sections with
  | nil => exact .inl ⟨rfl, rfl⟩
  | cons sec sections =>
    obtain ⟨line, hline⟩ := h sec List.mem_cons_self
    obtain ⟨header, body⟩ := sec
    obtain rfl : header = some line := hline
    refine .inr ?_
    cases first <;> simp [sectionsText, sectionLines, feedLines]

theorem toList_printDocument_eq (entries : List (String × Value)) : (printDocument entries).toList =
    feedLines (plainLines entries) ++
      feedLines (sectionLines (plainLines entries).isEmpty (entrySections [] entries)) := by
  rw [toList_printDocument, documentLines, sectionLines, Bool.true_and, ← feedLines, feedLines_append]

/-- A document begins with a key, with a bracket, or not at all. -/
theorem head?_printDocument (entries : List (String × Value)) :
    (printDocument entries).toList.head? ≠ some '\uFEFF' := by
  rw [toList_printDocument_eq, plainLines_eq_map]
  cases hplain : (entries.filter fun entry => !entry.2.hasHeader) with
  | cons entry plain =>
    obtain ⟨c, rest, hkey, hc⟩ := exists_cons_printKey entry.1
    have hne : c ≠ '\uFEFF' := by
      rintro rfl
      rcases hc with hc | hc | hc <;> revert hc <;> decide
    simpa [feedLines, printEntry, hkey] using hne
  | nil =>
    cases hsections : entrySections [] entries with
    | nil => simp [feedLines, sectionLines]
    | cons sec sections =>
      obtain ⟨inside, hheader, -⟩ := (written_entrySections [] entries sec (by simp [hsections])).header
      obtain ⟨header, body⟩ := sec
      obtain rfl : header = some ("[" ++ inside ++ "]") := hheader
      simp [feedLines, sectionLines]

/-- The lines of a document are read as its entries, in some order. -/
theorem reaches_printDocument {levels : Nat} {entries : List (String × Value)} (h : TableReads levels entries)
    (hdepth : levels + 1 < depthLimit) (size : Nat) :
    ∃ (last : Draft) (final : Entries), Reaches size (printDocument entries).toList .empty [] last ∧
      last.finishTable = .ok final ∧ (plainOf final).Perm entries := by
  have hnodup : ((unheaded entries ++ headed entries).map (·.1)).Nodup :=
    ((perm_headed entries).map (·.1)).nodup_iff.mpr (nodup_keys h.increasing)
  have hdistinct : ((unheaded entries).map (·.1)).Nodup := by
    rw [List.map_append, List.nodup_append] at hnodup
    exact hnodup.1
  let below := feedLines (sectionLines (plainLines entries).isEmpty (entrySections [] entries))
  have hlevels : levels < depthLimit := by omega
  have hinside : ∀ entry ∈ unheaded entries, entry.2.Kept levels :=
    fun entry hentry => h.kept entry (List.mem_of_mem_filter hentry)
  obtain ⟨plain, span, hplain, hreach⟩ := reaches_printEntries hlevels size hinside .empty hdistinct below
  let start : Draft := { Draft.empty with current := plain, span := span }
  have hplainLines : Reaches size (feedLines (plainLines entries) ++ below) .empty below start := hreach
  have hstart : start.finishTable = .ok plain := rfl
  have hready : Ready [] plain plain := by
    intro path hpath
    obtain rfl : path = [] := by simpa using hpath
    exact ⟨id, .here plain⟩
  have hunder : ([] : List String).length + 1 + levels < depthLimit := by
    rw [List.length_nil]
    omega
  obtain ⟨more, hmore, hrest⟩ := finishes_entrySections h.inside size hunder hready (by rw [hplain]; exact hnodup)
    hstart []
  have hperm : (plainOf (plain ++ more)).Perm entries := by
    rw [plainOf_append, hplain, hmore]
    exact perm_headed entries
  have hheaders : ∀ sec ∈ entrySections [] entries, ∃ line, sec.header = some line := by
    intro sec hsec
    obtain ⟨inside, hheader, -⟩ := (written_entrySections [] entries sec hsec).header
    exact ⟨_, hheader⟩
  rw [toList_printDocument_eq]
  rcases hrest with ⟨rfl, hnone⟩ | ⟨last, final, hreaches, hfinal, path, plug, hpath, hleads, rfl⟩
  · have hbelow : below = [] := by
      rcases feedLines_sectionLines (plainLines entries).isEmpty hheaders with ⟨-, hnil⟩ | hfirst
      · exact hnil
      · rw [hnone] at hfirst
        exact (List.append_eq_nil_iff.mp hfirst.symm).2
    rw [List.append_nil] at hperm
    refine ⟨start, plain, ?_, hstart, hperm⟩
    change Reaches size (feedLines (plainLines entries) ++ below) .empty [] start
    rw [hbelow] at hplainLines ⊢
    exact hplainLines
  · obtain rfl : path = [] := by simpa using hpath
    cases hleads
    rw [List.append_nil] at hreaches
    refine ⟨last, plain ++ more, hplainLines.trans ?_, hfinal, hperm⟩
    rcases feedLines_sectionLines (plainLines entries).isEmpty hheaders with ⟨hnil, hnone⟩ | hfirst
    · rw [hnil] at hreaches
      rw [show below = [] from hnone]
      exact hreaches
    · rw [hfirst] at hreaches
      cases hempty : (plainLines entries).isEmpty with
      | false =>
        simp only [hempty, Bool.false_eq_true, if_false, List.nil_append] at hreaches
        simpa only [below, hempty] using hreaches
      | true =>
        simp only [hempty, if_true, List.singleton_append] at hreaches
        simpa only [below, hempty] using reaches_feed_iff.mp hreaches

/-- **TOML written and read back.** Entries of strings, truth values, arrays and tables, by increasing key and not
nested too deep, are read as they were. -/
theorem read_printDocument {entries : List (String × Value)} (h : (Value.table entries).Kept (depthLimit - 1)) :
    read (printDocument entries) = .ok entries := by
  obtain ⟨levels, hlevels, hreads⟩ := h.sectionsRead.2 entries rfl
  have hdepth : levels + 1 < depthLimit := by rw [← hlevels]; decide
  obtain ⟨last, final, hreach, hfinal, hperm⟩ :=
    reaches_printDocument hreads hdepth (printDocument entries).utf8ByteSize
  obtain ⟨less, hless, hlines⟩ := hreach _ (Nat.lt_succ_self _)
  obtain ⟨less, rfl⟩ := Nat.exists_eq_succ_of_ne_zero (Nat.ne_of_gt (Nat.zero_lt_of_lt hless))
  have hend : readLines (printDocument entries).utf8ByteSize (less + 1) last [] = .ok (last, []) := by
    rw [readLines]
    rfl
  rw [hend] at hlines
  have hread : readDocument (printDocument entries) = .ok final := by
    have hmark := head?_printDocument entries
    rw [readDocument]
    cases htext : (printDocument entries).toList with
    | nil =>
      rw [htext] at hlines
      simp only [hlines, hfinal]
    | cons c rest =>
      rw [htext] at hlines hmark
      have hne : c ≠ '\uFEFF' := by simpa using hmark
      rw [List.length_cons, Nat.succ_eq_add_one] at hlines
      simp [hlines, hfinal, hne]
  rw [read, hread, Except.map, mapOf_eq_of_perm hperm hreads.increasing]

end Literate.Toml
