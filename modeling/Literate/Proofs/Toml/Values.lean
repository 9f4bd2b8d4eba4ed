import Literate.Proofs.Toml.Documents
import Literate.Proofs.Toml.Quoted
import Literate.Toml.Reader

/-!
# Values read back

A value made of strings, truth values, arrays and tables is read as it was, if it nests less deep than the
reader allows and its tables have their keys in increasing order (`Value.Kept`). The reader makes items of
what it reads; which places in the text they have makes no difference to the values that they are.

Main results:

* `mapOf_eq_of_perm`: the entries of a table are those that were written, by increasing key.
* `Value.Kept.readsBack`: what a value is printed as is read as the value.
-/

namespace Literate.Toml

-- ---------------------------------------------------------------------------
-- Entries by increasing key
-- ---------------------------------------------------------------------------

/-- Whether the keys of entries increase. -/
def Increasing (entries : List (String × Value)) : Prop :=
  (entries.map (·.1)).Pairwise (· < ·)

/-- What entries say, with their places in the text forgotten. -/
def plainOf (entries : Entries) : List (String × Value) :=
  entries.map fun entry => (entry.1.name, entry.2.toValue)

theorem insertSorted_perm (key : String) (value : Value) {entries : List (String × Value)}
    (h : key ∉ entries.map (·.1)) : (insertSorted key value entries).Perm ((key, value) :: entries) := by
  induction entries with
  | nil => exact .refl _
  | cons entry entries ih =>
    obtain ⟨k, v⟩ := entry
    rw [List.map_cons, List.mem_cons, not_or] at h
    rw [insertSorted, if_neg h.1]
    split_ifs
    · exact .refl _
    · exact ((ih h.2).cons _).trans (.swap ..)

theorem mem_insertSorted {key : String} {value : Value} {entries : List (String × Value)} {k : String}
    (h : k ∈ (insertSorted key value entries).map (·.1)) : k = key ∨ k ∈ entries.map (·.1) := by
  induction entries with
  | nil => simpa [insertSorted] using h
  | cons entry entries ih =>
    obtain ⟨other, v⟩ := entry
    rw [insertSorted] at h
    split_ifs at h with hlt heq
    · simpa using h
    · rw [List.map_cons, List.mem_cons] at h
      exact h.imp_right (List.mem_cons_of_mem _)
    · rw [List.map_cons, List.mem_cons] at h
      rw [List.map_cons, List.mem_cons]
      rcases h with h | h
      · exact .inr (.inl h)
      · exact (ih h).imp_right .inr

theorem increasing_insertSorted (key : String) (value : Value) {entries : List (String × Value)}
    (h : Increasing entries) : Increasing (insertSorted key value entries) := by
  induction entries with
  | nil => exact List.pairwise_singleton ..
  | cons entry entries ih =>
    obtain ⟨k, v⟩ := entry
    obtain ⟨habove, hentries⟩ := List.pairwise_cons.mp h
    rw [insertSorted]
    split_ifs with hlt heq
    · refine List.pairwise_cons.mpr ⟨fun other hother => ?_, h⟩
      rcases List.mem_cons.mp hother with rfl | hother
      · exact hlt
      · exact lt_trans hlt (habove other hother)
    · exact List.pairwise_cons.mpr ⟨heq ▸ habove, hentries⟩
    · refine List.pairwise_cons.mpr ⟨fun other hother => ?_, ih hentries⟩
      rcases mem_insertSorted hother with rfl | hother
      · exact lt_of_le_of_ne (not_lt.mp hlt) (Ne.symm heq)
      · exact habove other hother

/-- The entries of a table, of which no two have one key, are those that were written. -/
theorem mapOf_perm {entries : Entries} (h : ((plainOf entries).map (·.1)).Nodup) :
    (mapOf entries).Perm (plainOf entries) := by
  induction entries with
  | nil => exact .refl _
  | cons entry entries ih =>
    obtain ⟨key, item⟩ := entry
    rw [plainOf, List.map_cons, List.map_cons, List.nodup_cons] at h
    have hrest := ih h.2
    have hnew : key.name ∉ (mapOf entries).map (·.1) := fun hmem =>
      h.1 ((hrest.map (·.1)).mem_iff.mp hmem)
    exact (insertSorted_perm key.name item.toValue hnew).trans (hrest.cons _)

theorem increasing_mapOf (entries : Entries) : Increasing (mapOf entries) := by
  induction entries with
  | nil => exact .nil
  | cons entry entries ih => exact increasing_insertSorted entry.1.name entry.2.toValue ih

/-- **Tables.** A table holds what was written in it, by increasing key. -/
theorem mapOf_eq_of_perm {entries : Entries} {others : List (String × Value)} (h : (plainOf entries).Perm others)
    (hincreasing : Increasing others) : mapOf entries = others := by
  have hothers : (others.map (·.1)).Nodup := List.Pairwise.imp ne_of_lt hincreasing
  have hdistinct : ((plainOf entries).map (·.1)).Nodup := (h.map (·.1)).nodup_iff.mpr hothers
  have hpairs : ∀ {entries : List (String × Value)}, Increasing entries →
      entries.Pairwise fun one other => one.1 < other.1 := fun hall => List.pairwise_map.mp hall
  refine ((mapOf_perm hdistinct).trans h).eq_of_pairwise ?_ (hpairs (increasing_mapOf entries))
    (hpairs hincreasing)
  intro one other _ _ hlt hgt
  exact absurd hgt (lt_asymm hlt)

-- ---------------------------------------------------------------------------
-- Keys with dots
-- ---------------------------------------------------------------------------

theorem dropBlanks_of_head? {cs : List Char} (h : cs.head?.all (!isTomlBlank ·) = true) : dropBlanks cs = cs := by
  cases cs with
  | nil => rfl
  | cons c cs => exact List.dropWhile_cons_of_neg (by simpa using h)

/-- What a key is printed as begins with no blank, no bracket and no brace. -/
theorem exists_cons_printKey (key : String) : ∃ c rest, (printKey key).toList = c :: rest ∧
    (isBareKeyChar c = true ∨ c = '"' ∨ c = '\'') := by
  simp only [printKey]
  split_ifs with hbare
  · rw [Bool.and_eq_true, Bool.not_eq_true', List.isEmpty_eq_false_iff, List.all_eq_true] at hbare
    obtain ⟨c, rest, hkey⟩ := List.exists_cons_of_ne_nil hbare.1
    exact ⟨c, rest, hkey, .inl (hbare.2 c (hkey ▸ List.mem_cons_self))⟩
  · rw [String.toList_ofList]
    exact ⟨'"', _, rfl, .inr (.inl rfl)⟩
  · rw [String.toList_ofList]
    exact ⟨'\'', _, rfl, .inr (.inr rfl)⟩
  · rw [String.toList_ofList]
    exact ⟨'"', _, rfl, .inr (.inl rfl)⟩

theorem dropBlanks_printKey (key : String) (rest : List Char) :
    dropBlanks ((printKey key).toList ++ rest) = (printKey key).toList ++ rest := by
  obtain ⟨c, more, hkey, hc⟩ := exists_cons_printKey key
  refine dropBlanks_of_head? ?_
  rw [hkey, List.cons_append, List.head?_cons, Option.all_some, Bool.not_eq_true']
  rcases hc with hc | rfl | rfl
  · simp only [isTomlBlank, Bool.or_eq_false_iff, decide_eq_false_iff_not]
    constructor <;> rintro rfl <;> cases hc
  · rfl
  · rfl

/-- A key of several parts with dots between them is read part by part. -/
theorem readKeyParts_printPath (size : Nat) {path : List String} (hpath : path ≠ []) {rest : List Char}
    (hbare : rest.head?.all (!isBareKeyChar ·) = true) (hdot : (dropBlanks rest).head? ≠ some '.') {fuel : Nat}
    (hfuel : path.length ≤ fuel) :
    ∃ keys : List Key, readKeyParts size fuel ((printPath path).toList ++ rest) = .ok (keys, dropBlanks rest) ∧
      keys.map (·.name) = path := by
  induction path generalizing fuel with
  | nil => exact absurd rfl hpath
  | cons key path ih =>
    obtain ⟨fuel, rfl⟩ := Nat.exists_eq_succ_of_ne_zero (Nat.ne_of_gt (Nat.zero_lt_of_lt hfuel))
    cases path with
    | nil =>
      have hpart := readKeyPart_printKey key hbare
      have hlast : ∀ more, dropBlanks rest ≠ '.' :: more := fun more heq => hdot (by rw [heq, List.head?_cons])
      have htext : (printPath [key]).toList = (printKey key).toList := by simp [printPath]
      refine ⟨[⟨key, spanOf size ((printKey key).toList ++ rest) rest⟩], ?_, rfl⟩
      rw [htext, readKeyParts]
      simp only [dropBlanks_printKey, hpart, bind, Except.bind]
      rfl
    | cons next path =>
      have hless : (next :: path).length ≤ fuel := by simpa using hfuel
      obtain ⟨keys, hread, hnames⟩ := ih (List.cons_ne_nil next path) hless
      let below := '.' :: ((printPath (next :: path)).toList ++ rest)
      have hpart : readKeyPart ((printKey key).toList ++ below) = .ok (key, below) := readKeyPart_printKey key rfl
      have htext : (printPath (key :: next :: path)).toList ++ rest =
          (printKey key).toList ++ below := by
        simp [printPath, below]
      refine ⟨⟨key, spanOf size ((printKey key).toList ++ below) below⟩ :: keys, ?_, congrArg (key :: ·) hnames⟩
      rw [htext, readKeyParts]
      simp only [dropBlanks_printKey, hpart, bind, Except.bind]
      rw [dropBlanks_of_head? (by rfl)]
      simp only [below, hread, Attempt.optional]
      rfl

theorem length_le_printPath (path : List String) : path.length ≤ (printPath path).toList.length := by
  induction path with
  | nil => exact Nat.zero_le _
  | cons key path ih =>
    obtain ⟨c, rest, hkey, -⟩ := exists_cons_printKey key
    cases path with
    | nil => simp [printPath, hkey]
    | cons next path =>
      have htext : (printPath (key :: next :: path)).toList =
          c :: rest ++ '.' :: (printPath (next :: path)).toList := by
        simp [printPath, hkey]
      rw [htext, List.length_append]
      simp only [List.length_cons] at ih ⊢
      omega

theorem readKeyParts_blanks (size fuel : Nat) {blanks : List Char} (h : ∀ c ∈ blanks, isTomlBlank c = true)
    (cs : List Char) : readKeyParts size (fuel + 1) (blanks ++ cs) = readKeyParts size (fuel + 1) cs := by
  have hdrop : dropBlanks (blanks ++ cs) = dropBlanks cs := List.dropWhile_append_of_pos h
  rw [readKeyParts, readKeyParts, hdrop]

/-- A key is read with the blanks around it. -/
theorem readKey_printPath (size : Nat) {path : List String} (hpath : path ≠ []) (hdepth : path.length < depthLimit)
    {blanks : List Char} (hblanks : ∀ c ∈ blanks, isTomlBlank c = true) (rest : List Char)
    (hbare : rest.head?.all (!isBareKeyChar ·) = true) (hdot : (dropBlanks rest).head? ≠ some '.') :
    ∃ keys : List Key, readKey size (blanks ++ ((printPath path).toList ++ rest)) = .ok (keys, dropBlanks rest) ∧
      keys.map (·.name) = path := by
  have hfuel : path.length ≤ (blanks ++ ((printPath path).toList ++ rest)).length + 1 := by
    have hle := length_le_printPath path
    simp only [List.length_append]
    omega
  obtain ⟨keys, hread, hnames⟩ := readKeyParts_printPath size hpath hbare hdot hfuel
  have hlength : keys.length = path.length := by rw [← hnames, List.length_map]
  refine ⟨keys, ?_, hnames⟩
  rw [readKey, readKeyParts_blanks size _ hblanks, hread]
  simp only [Attempt.within, Except.mapError, bind, Except.bind]
  rw [if_neg (by omega)]
  rfl

-- ---------------------------------------------------------------------------
-- Values that are read back
-- ---------------------------------------------------------------------------

/-- Values that are read back: strings, truth values, and at most so many arrays and tables around them, the
tables with increasing keys. -/
inductive Value.Kept : Nat → Value → Prop where
  | string (levels : Nat) (s : String) : Kept levels (.string s)
  | boolean (levels : Nat) (b : Bool) : Kept levels (.boolean b)
  | array {levels : Nat} {items : List Value} (inside : ∀ item ∈ items, Kept levels item) :
      Kept (levels + 1) (.array items)
  | table {levels : Nat} {entries : List (String × Value)} (increasing : Increasing entries)
      (inside : ∀ entry ∈ entries, Kept levels entry.2) : Kept (levels + 1) (.table entries)

/-- A character that a value begins with. -/
def beginsValue (c : Char) : Bool :=
  "\"'tf[\x7b".toList.contains c

theorem exists_cons_printString (s : String) :
    ∃ c rest, (printString s).toList = c :: rest ∧ (c = '"' ∨ c = '\'') := by
  simp only [printString, String.toList_ofList]
  repeat' split
  all_goals simp [basic, literal, multiline, List.replicate]

theorem Value.Kept.exists_cons {levels : Nat} {v : Value} (h : v.Kept levels) :
    ∃ c rest, v.print.toList = c :: rest ∧ beginsValue c = true := by
  cases h with
  | string levels s =>
    obtain ⟨c, rest, htext, rfl | rfl⟩ := exists_cons_printString s
    · exact ⟨_, _, htext, rfl⟩
    · exact ⟨_, _, htext, rfl⟩
  | boolean levels b => cases b <;> exact ⟨_, _, rfl, rfl⟩
  | array => exact ⟨'[', _, by rw [Value.print, String.toList_append, String.toList_append]; rfl, rfl⟩
  | @table levels entries =>
    cases entries with
    | nil => exact ⟨_, _, rfl, rfl⟩
    | cons entry entries =>
      exact ⟨'\x7b', _, by rw [Value.print, String.toList_append, String.toList_append]; rfl; simp, rfl⟩

/-- Whether nothing behind a value is taken for a part of it. -/
def Follows (rest : List Char) : Prop :=
  ∀ c ∈ rest.head?, c = ',' ∨ c = ']' ∨ c = ' ' ∨ c = '\n'

/-- What a value is printed as is read as the value, with as much fuel as it has characters. -/
def Value.ReadsBack (levels : Nat) (v : Value) : Prop :=
  ∀ size fuel depth rest, v.print.toList.length ≤ fuel → depth + levels < depthLimit → Follows rest →
    ∃ item : Item, readValue size fuel depth (v.print.toList ++ rest) = .ok (item, rest) ∧ item.toValue = v

theorem Follows.ne {rest : List Char} (h : Follows rest) {c : Char} (hcomma : c ≠ ',') (hclose : c ≠ ']')
    (hblank : c ≠ ' ') (hfeed : c ≠ '\n') : rest.head? ≠ some c := by
  intro heq
  rcases h c (by rw [heq]; rfl) with h | h | h | h
  · exact hcomma h
  · exact hclose h
  · exact hblank h
  · exact hfeed h

theorem Value.ReadsBack.string (levels : Nat) (s : String) : (Value.string s).ReadsBack levels := by
  intro size fuel depth rest hfuel hdepth hrest
  obtain ⟨c, more, htext, hc⟩ := exists_cons_printString s
  have hread := readString_printString s (hrest.ne (c := '"') (by decide) (by decide) (by decide) (by decide))
    (hrest.ne (c := '\'') (by decide) (by decide) (by decide) (by decide))
  rw [Value.print] at hfuel ⊢
  rw [htext] at hfuel hread ⊢
  rw [List.cons_append] at hread ⊢
  obtain ⟨fuel, rfl⟩ := Nat.exists_eq_succ_of_ne_zero (Nat.ne_of_gt (Nat.zero_lt_of_lt hfuel))
  refine ⟨.string (spanOf size (c :: (more ++ rest)) rest) s, ?_, rfl⟩
  rw [readValue]
  simp only [hread, bind, Except.bind]
  rcases hc with rfl | rfl <;> rfl

theorem Value.ReadsBack.boolean (levels : Nat) (b : Bool) : (Value.boolean b).ReadsBack levels := by
  intro size fuel depth rest hfuel hdepth hrest
  obtain ⟨fuel, rfl⟩ : ∃ n, fuel = n + 1 := by
    refine Nat.exists_eq_succ_of_ne_zero ?_
    rintro rfl
    cases b <;> simp [Value.print] at hfuel
  cases b
  · exact ⟨.boolean (spanOf size ("false".toList ++ rest) rest) false, rfl, rfl⟩
  · exact ⟨.boolean (spanOf size ("true".toList ++ rest) rest) true, rfl, rfl⟩

-- ---------------------------------------------------------------------------
-- Arrays
-- ---------------------------------------------------------------------------

/-- A character at which a value may begin or end is none that is passed over. -/
theorem readFiller_of_head? {c : Char} (hc : isTomlBlank c = false) (hsign : c ≠ '#') (hfeed : c ≠ '\n')
    (hreturn : c ≠ '\r') (fuel : Nat) (cs : List Char) : readFiller (fuel + 1) (c :: cs) = .ok (c :: cs) := by
  rw [readFiller, dropBlanks_of_head? (by simp [hc])]
  split
  · rename_i heq
    exact absurd (List.cons.inj heq).1 hsign
  · rename_i heq
    rw [← (List.cons.inj heq).1, if_neg (by simp [hfeed, hreturn])]
  · rfl

theorem isTomlBlank_of_beginsValue {c : Char} (hc : beginsValue c = true) : isTomlBlank c = false := by
  simp only [isTomlBlank, Bool.or_eq_false_iff, decide_eq_false_iff_not]
  constructor <;> rintro rfl <;> cases hc

theorem dropBlanks_begins {c : Char} (hc : beginsValue c = true) (cs : List Char) :
    dropBlanks (' ' :: c :: cs) = c :: cs := by
  have hself : dropBlanks (c :: cs) = c :: cs := dropBlanks_of_head? (by simp [isTomlBlank_of_beginsValue hc])
  exact hself

theorem readFiller_begins {c : Char} (hc : beginsValue c = true) (fuel : Nat) (cs : List Char) :
    readFiller (fuel + 1) (c :: cs) = .ok (c :: cs) ∧ readFiller (fuel + 1) (' ' :: c :: cs) = .ok (c :: cs) := by
  have hblank := isTomlBlank_of_beginsValue hc
  have hsign : c ≠ '#' := by rintro rfl; cases hc
  have hfeed : c ≠ '\n' := by rintro rfl; cases hc
  have hreturn : c ≠ '\r' := by rintro rfl; cases hc
  have hself := readFiller_of_head? hblank hsign hfeed hreturn fuel cs
  refine ⟨hself, ?_⟩
  rw [readFiller] at hself ⊢
  exact hself

/-- The items of an array are read one by one, with or without a blank in front of the first. -/
theorem readArray_items {levels : Nat} {item : Value} {items : List Value}
    (hread : ∀ other ∈ item :: items, other.ReadsBack levels ∧
      ∃ c rest, other.print.toList = c :: rest ∧ beginsValue c = true) (size depth : Nat)
    (hdepth : depth + levels < depthLimit) {front : List Char} (hfront : front = [] ∨ front = [' ']) (rest : List Char)
    {fuel : Nat}
    (hfuel : ([',', ' '].intercalate ((item :: items).map (·.print.toList))).length < fuel) :
    ∃ others : List Item, readArray size fuel depth
        (front ++ [',', ' '].intercalate ((item :: items).map (·.print.toList)) ++ ']' :: rest) =
      .ok (others, ']' :: rest) ∧ valuesOf others = item :: items := by
  induction items generalizing item front fuel with
  | nil =>
    obtain ⟨fuel, rfl⟩ := Nat.exists_eq_succ_of_ne_zero (Nat.ne_of_gt (Nat.zero_lt_of_lt hfuel))
    obtain ⟨hitem, c, more, htext, hc⟩ := hread item List.mem_cons_self
    have hjoined : [',', ' '].intercalate ([item].map (·.print.toList)) = item.print.toList := by simp
    rw [hjoined] at hfuel ⊢
    obtain ⟨other, hvalue, hother⟩ := hitem size fuel depth (']' :: rest) (Nat.le_of_lt_succ hfuel) hdepth
      (by simp [Follows])
    have hfiller : ∀ n, readFiller (n + 1) (front ++ item.print.toList ++ ']' :: rest) =
        .ok (item.print.toList ++ ']' :: rest) := by
      intro n
      rw [htext]
      rcases hfront with rfl | rfl
      · exact (readFiller_begins hc n _).1
      · exact (readFiller_begins hc n _).2
    have hclose : ∀ n, readFiller (n + 1) (']' :: rest) = .ok (']' :: rest) :=
      fun n => readFiller_of_head? rfl (by decide) (by decide) (by decide) n rest
    refine ⟨[other], ?_, by rw [valuesOf, valuesOf, hother]⟩
    rw [readArray]
    simp only [hfiller, hvalue, hclose, bind, Except.bind]
    simp [Attempt.optional, pure, Except.pure, hclose]
  | cons next items ih =>
    obtain ⟨fuel, rfl⟩ := Nat.exists_eq_succ_of_ne_zero (Nat.ne_of_gt (Nat.zero_lt_of_lt hfuel))
    obtain ⟨hitem, c, more, htext, hc⟩ := hread item List.mem_cons_self
    let below := [',', ' '].intercalate ((next :: items).map (·.print.toList))
    have hjoined : [',', ' '].intercalate ((item :: next :: items).map (·.print.toList)) =
        item.print.toList ++ ',' :: ' ' :: below := by simp [below]
    rw [hjoined, List.length_append, List.length_cons, List.length_cons] at hfuel
    obtain ⟨other, hvalue, hother⟩ := hitem size fuel depth (',' :: ' ' :: (below ++ ']' :: rest)) (by omega) hdepth
      (by simp [Follows])
    have hbelow : below.length < fuel := by omega
    obtain ⟨others, hothers, hvalues⟩ := ih (fun other hmem => hread other (List.mem_cons_of_mem _ hmem))
      (.inr rfl) hbelow
    have hwhole : front ++ [',', ' '].intercalate ((item :: next :: items).map (·.print.toList)) ++ ']' :: rest =
        front ++ (item.print.toList ++ ',' :: ' ' :: (below ++ ']' :: rest)) := by
      rw [hjoined]
      simp
    have hfiller : ∀ n, readFiller (n + 1) (front ++ (item.print.toList ++ ',' :: ' ' :: (below ++ ']' :: rest))) =
        .ok (item.print.toList ++ ',' :: ' ' :: (below ++ ']' :: rest)) := by
      intro n
      rw [htext]
      rcases hfront with rfl | rfl
      · exact (readFiller_begins hc n _).1
      · exact (readFiller_begins hc n _).2
    have hcomma : ∀ n cs, readFiller (n + 1) (',' :: cs) = .ok (',' :: cs) :=
      fun n cs => readFiller_of_head? rfl (by decide) (by decide) (by decide) n cs
    refine ⟨other :: others, ?_, by rw [valuesOf, hother, hvalues]⟩
    rw [hwhole, readArray]
    simp only [hfiller, hvalue, hcomma, bind, Except.bind]
    simp only [Attempt.optional, pure, Except.pure]
    have hmore : readArray size fuel depth (' ' :: (below ++ ']' :: rest)) = .ok (others, ']' :: rest) := hothers
    simp only [hmore]

theorem Value.ReadsBack.array {levels : Nat} {items : List Value}
    (hread : ∀ item ∈ items, item.ReadsBack levels ∧
      ∃ c rest, item.print.toList = c :: rest ∧ beginsValue c = true) :
    (Value.array items).ReadsBack (levels + 1) := by
  intro size fuel depth rest hfuel hdepth hrest
  have htext : (Value.array items).print.toList =
      '[' :: ([',', ' '].intercalate (items.map (·.print.toList)) ++ [']']) := by
    simp [Value.print, printItems_eq_map, Function.comp_def]
  rw [htext] at hfuel ⊢
  rw [List.cons_append, List.append_assoc, List.singleton_append]
  obtain ⟨fuel, rfl⟩ := Nat.exists_eq_succ_of_ne_zero (Nat.ne_of_gt (Nat.zero_lt_of_lt hfuel))
  have hshallow : ¬ depthLimit ≤ depth + 1 := by omega
  cases items with
  | nil =>
    refine ⟨.array (spanOf size ('[' :: ']' :: rest) rest) [], ?_, by rw [Item.toValue, valuesOf]⟩
    rw [readValue]
    simp [hshallow, readMark, Attempt.cut, Attempt.expecting, Attempt.within, Except.mapError, bind, Except.bind,
      pure, Except.pure]
  | cons item items =>
    have hlength : ([',', ' '].intercalate ((item :: items).map (·.print.toList))).length < fuel := by
      simp only [List.length_cons, List.length_append, List.length_nil] at hfuel
      omega
    obtain ⟨others, hothers, hvalues⟩ := readArray_items hread size (depth + 1) (by omega) (.inl rfl) rest hlength
    rw [List.nil_append] at hothers
    obtain ⟨-, c, more, hfirst, hc⟩ := hread item List.mem_cons_self
    have hopen : ∃ more, [',', ' '].intercalate ((item :: items).map (·.print.toList)) ++ ']' :: rest = c :: more := by
      cases items <;> simp [hfirst]
    obtain ⟨more, hmore⟩ := hopen
    have hne : c ≠ ']' := by rintro rfl; cases hc
    rw [hmore] at hothers ⊢
    refine ⟨.array (spanOf size ('[' :: c :: more) rest) others, ?_, by rw [Item.toValue, hvalues]⟩
    rw [readValue]
    simp [hshallow, hne, hothers, readMark, Attempt.cut, Attempt.expecting, Attempt.within, Except.mapError, bind,
      Except.bind, pure, Except.pure]

-- ---------------------------------------------------------------------------
-- Tables in braces
-- ---------------------------------------------------------------------------

theorem find?_eq_none {key : String} {entries : Entries} (h : key ∉ (plainOf entries).map (·.1)) :
    entries.find? key = none := by
  have hnone : List.find? (fun entry : Key × Item => entry.1.name = key) entries = none := by
    rw [List.find?_eq_none]
    intro entry hentry heq
    refine h ?_
    simp only [plainOf, List.map_map, List.mem_map]
    exact ⟨entry, hentry, by simpa using heq⟩
  rw [Entries.find?, hnone, Option.map_none]

theorem plainOf_append (front back : Entries) : plainOf (front ++ back) = plainOf front ++ plainOf back :=
  List.map_append

/-- Entries with keys of one part each make a table of these entries. -/
theorem gatherInline_single (entries : Entries) {front : Entries}
    (h : ((plainOf (front ++ entries)).map (·.1)).Nodup) :
    gatherInline front (entries.map fun entry => ([entry.1], entry.2)) = .ok (front ++ entries) := by
  induction entries generalizing front with
  | nil => rw [List.map_nil, gatherInline, List.append_nil]
  | cons entry entries ih =>
    have hnew : front.find? entry.1.name = none := by
      refine find?_eq_none ?_
      rw [plainOf_append, List.map_append, List.nodup_append] at h
      intro hmem
      exact h.2.2 _ hmem entry.1.name (by simp [plainOf]) rfl
    have hmore : ((plainOf (front ++ [entry] ++ entries)).map (·.1)).Nodup := by simpa using h
    have hrest := ih hmore
    rw [List.map_cons, gatherInline]
    simp only [List.reverse_singleton, List.reverse_nil]
    rw [addInline, modifyInline]
    simp only [hnew, bind, Except.bind, pure, Except.pure]
    rw [hrest]
    simp

/-- One entry of a table in braces, up to the comma or the brace behind it. -/
theorem readInline_entry {levels : Nat} {entry : String × Value} (hread : entry.2.ReadsBack levels)
    (hfirst : ∃ c rest, entry.2.print.toList = c :: rest ∧ beginsValue c = true) (size depth : Nat)
    (hdepth : depth + levels < depthLimit) (rest : List Char) (hrest : Follows rest) {fuel : Nat}
    (hfuel : (printEntry entry).toList.length ≤ fuel) :
    ∃ (key : Key) (item : Item), (do
        let (keys, rest) ← readKey size (' ' :: ((printEntry entry).toList ++ rest))
        Attempt.cut do
          let rest ← Attempt.expecting [.text ".", .text "="] (readMark '=' rest)
          let (item, rest) ← readValue size fuel depth (dropBlanks rest)
          return ((keys, item), dropBlanks rest) : Attempt ((List Key × Item) × List Char)) =
      .ok (([key], item), dropBlanks rest) ∧ (key.name, item.toValue) = entry := by
  obtain ⟨name, value⟩ := entry
  have htext : (printEntry (name, value)).toList ++ rest =
      (printPath [name]).toList ++ ' ' :: '=' :: ' ' :: (value.print.toList ++ rest) := by
    simp [printEntry, printPath]
  have hblank : ∀ c ∈ [' '], isTomlBlank c = true := by simp [isTomlBlank]
  obtain ⟨keys, hkeys, hnames⟩ := readKey_printPath size (List.cons_ne_nil name [])
    (show 1 < depthLimit by decide) hblank (' ' :: '=' :: ' ' :: (value.print.toList ++ rest)) rfl
    (by simp [dropBlanks, isTomlBlank])
  obtain ⟨key, rfl, hname⟩ := List.map_eq_singleton_iff.mp hnames
  have hlength : value.print.toList.length ≤ fuel := by
    simp only [printEntry, String.toList_append, List.length_append] at hfuel
    omega
  obtain ⟨item, hitem, hvalue⟩ := hread size fuel depth rest hlength hdepth hrest
  obtain ⟨c, more, hc, hbegins⟩ := hfirst
  have hblanks : dropBlanks (' ' :: (value.print.toList ++ rest)) = value.print.toList ++ rest := by
    rw [hc]
    exact dropBlanks_begins hbegins _
  refine ⟨key, item, ?_, by rw [hname, hvalue]⟩
  rw [htext]
  simp only [List.singleton_append] at hkeys
  rw [hkeys]
  have hequals : dropBlanks (' ' :: '=' :: ' ' :: (value.print.toList ++ rest)) =
      '=' :: ' ' :: (value.print.toList ++ rest) := rfl
  simp only [hequals, readMark, List.head?_cons, List.drop_one, List.tail_cons, if_true, bind, Except.bind,
    Attempt.expecting, Except.mapError, hblanks, hitem, pure, Except.pure, Attempt.cut]

/-- The entries of a table in braces are read one by one. -/
theorem readInline_entries {levels : Nat} {entry : String × Value} {entries : List (String × Value)}
    (hread : ∀ other ∈ entry :: entries, other.2.ReadsBack levels ∧
      ∃ c rest, other.2.print.toList = c :: rest ∧ beginsValue c = true) (size depth : Nat)
    (hdepth : depth + levels < depthLimit) (rest : List Char) {fuel : Nat}
    (hfuel : ([',', ' '].intercalate ((entry :: entries).map (printEntry · |>.toList))).length < fuel) :
    ∃ others : Entries, readInline size fuel depth
        (' ' :: ([',', ' '].intercalate ((entry :: entries).map (printEntry · |>.toList)) ++ ' ' :: '\x7d' :: rest)) =
      .ok (others.map fun entry => ([entry.1], entry.2), '\x7d' :: rest) ∧ plainOf others = entry :: entries := by
  induction entries generalizing entry fuel with
  | nil =>
    obtain ⟨fuel, rfl⟩ := Nat.exists_eq_succ_of_ne_zero (Nat.ne_of_gt (Nat.zero_lt_of_lt hfuel))
    obtain ⟨hvalue, hfirst⟩ := hread entry List.mem_cons_self
    have hjoined : [',', ' '].intercalate ([entry].map (printEntry · |>.toList)) = (printEntry entry).toList := by simp
    rw [hjoined] at hfuel ⊢
    obtain ⟨key, item, hentry, hmeans⟩ := readInline_entry hvalue hfirst size depth hdepth
      (' ' :: '\x7d' :: rest) (by simp [Follows]) (Nat.le_of_lt_succ hfuel)
    refine ⟨[(key, item)], ?_, by rw [← hmeans]; rfl⟩
    rw [readInline]
    simp only [hentry]
    rfl
  | cons next entries ih =>
    obtain ⟨fuel, rfl⟩ := Nat.exists_eq_succ_of_ne_zero (Nat.ne_of_gt (Nat.zero_lt_of_lt hfuel))
    obtain ⟨hvalue, hfirst⟩ := hread entry List.mem_cons_self
    let below := [',', ' '].intercalate ((next :: entries).map (printEntry · |>.toList))
    have hjoined : [',', ' '].intercalate ((entry :: next :: entries).map (printEntry · |>.toList)) =
        (printEntry entry).toList ++ ',' :: ' ' :: below := by simp [below]
    rw [hjoined, List.length_append, List.length_cons, List.length_cons] at hfuel
    have hbelow : below.length < fuel := by omega
    have hlength : (printEntry entry).toList.length ≤ fuel := by omega
    obtain ⟨others, hothers, hplain⟩ := ih (fun other hmem => hread other (List.mem_cons_of_mem _ hmem)) hbelow
    obtain ⟨key, item, hentry, hmeans⟩ := readInline_entry hvalue hfirst size depth hdepth
      (',' :: ' ' :: (below ++ ' ' :: '\x7d' :: rest)) (by simp [Follows]) hlength
    have hwhole : [',', ' '].intercalate ((entry :: next :: entries).map (printEntry · |>.toList)) ++
        ' ' :: '\x7d' :: rest = (printEntry entry).toList ++ ',' :: ' ' :: (below ++ ' ' :: '\x7d' :: rest) := by
      rw [hjoined]
      simp
    have hne : others ≠ [] := by
      rintro rfl
      cases hplain
    refine ⟨(key, item) :: others, ?_, by rw [plainOf, List.map_cons, ← plainOf, hplain, hmeans]⟩
    rw [hwhole, readInline]
    simp only [hentry]
    have hmore : readInline size fuel depth (' ' :: (below ++ ' ' :: '\x7d' :: rest)) =
        .ok (others.map fun entry => ([entry.1], entry.2), '\x7d' :: rest) := hothers
    have hcomma : dropBlanks (',' :: ' ' :: (below ++ ' ' :: '\x7d' :: rest)) =
        ',' :: ' ' :: (below ++ ' ' :: '\x7d' :: rest) := rfl
    simp only [hcomma, Attempt.optional, bind, Except.bind, hmore]
    rw [if_neg (by simpa using hne)]
    rfl

theorem Value.ReadsBack.table {levels : Nat} {entries : List (String × Value)} (hincreasing : Increasing entries)
    (hread : ∀ entry ∈ entries, entry.2.ReadsBack levels ∧
      ∃ c rest, entry.2.print.toList = c :: rest ∧ beginsValue c = true) :
    (Value.table entries).ReadsBack (levels + 1) := by
  intro size fuel depth rest hfuel hdepth hrest
  have hshallow : ¬ depthLimit ≤ depth + 1 := by omega
  cases entries with
  | nil =>
    have htext : (Value.table []).print.toList = ['\x7b', '\x7d'] := rfl
    rw [htext] at hfuel ⊢
    obtain ⟨fuel, rfl⟩ := Nat.exists_eq_add_of_le' (show 2 ≤ fuel by simpa using hfuel)
    refine ⟨.inline (spanOf size ('\x7b' :: '\x7d' :: rest) rest) [], ?_, by rw [Item.toValue, mapOf]⟩
    have hnone : readInline size (fuel + 1) (depth + 1) ('\x7d' :: rest) = .ok ([], '\x7d' :: rest) := by
      rw [readInline]
      rfl
    rw [List.cons_append, List.singleton_append, readValue]
    simp only [hshallow, if_false, hnone]
    rfl
  | cons entry entries =>
    have htext : (Value.table (entry :: entries)).print.toList = '\x7b' :: ' ' ::
        ([',', ' '].intercalate ((entry :: entries).map (printEntry · |>.toList)) ++ [' ', '\x7d']) := by
      rw [Value.print]
      · simp [printEntries_eq_map, Function.comp_def]
      · exact List.cons_ne_nil _ _
    rw [htext] at hfuel ⊢
    obtain ⟨fuel, rfl⟩ := Nat.exists_eq_succ_of_ne_zero (Nat.ne_of_gt (Nat.zero_lt_of_lt hfuel))
    have hlength : ([',', ' '].intercalate ((entry :: entries).map (printEntry · |>.toList))).length < fuel := by
      simp only [List.length_cons, List.length_append, List.length_nil] at hfuel
      omega
    obtain ⟨others, hothers, hplain⟩ := readInline_entries hread size (depth + 1) (by omega) rest hlength
    have hnodup : ((plainOf ([] ++ others)).map (·.1)).Nodup := by
      rw [List.nil_append, hplain]
      exact List.Pairwise.imp ne_of_lt hincreasing
    have hgather := gatherInline_single others hnodup
    have hmap : mapOf others = entry :: entries := mapOf_eq_of_perm (hplain ▸ .refl _) hincreasing
    let joined := [',', ' '].intercalate ((entry :: entries).map (printEntry · |>.toList))
    refine ⟨.inline (spanOf size ('\x7b' :: ' ' :: (joined ++ ' ' :: '\x7d' :: rest)) rest) others, ?_,
      by rw [Item.toValue, hmap]⟩
    rw [List.cons_append, List.cons_append, List.append_assoc, List.cons_append, List.singleton_append, readValue]
    simp only [hothers, hgather, bind, Except.bind]
    rw [if_neg (by decide), if_neg (by decide), if_pos trivial, if_neg hshallow]
    rfl

/-- **Values.** What a value is printed as is read as the value. -/
theorem Value.Kept.readsBack {levels : Nat} {v : Value} (h : v.Kept levels) : v.ReadsBack levels := by
  induction h with
  | string levels s => exact .string levels s
  | boolean levels b => exact .boolean levels b
  | array inside ih => exact .array fun item hitem => ⟨ih item hitem, (inside item hitem).exists_cons⟩
  | table increasing inside ih =>
    exact .table increasing fun entry hentry => ⟨ih entry hentry, (inside entry hentry).exists_cons⟩

end Literate.Toml
