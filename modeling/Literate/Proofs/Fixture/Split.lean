import Literate.Fixture.Basic
import Literate.Proofs.Text.Lines
import Literate.Proofs.Text.Runs

/-!
# Fixtures put together and taken apart

A fixture file is a line of dashes, the lines of the settings, another line of dashes, and the document
(`Fixture.assemble`). Its lines end in a line feed, with or without a carriage return in front of it. The
reader looks for the second line of dashes by the line feed before it, which is that of the last line of the
settings. Behind the first line of dashes the line end is taken off before the search begins, so if there are
no settings the line feed that it looks for is gone.

Main result: `Fixture.read_assemble_iff`.
-/

namespace Literate

namespace Text

variable {part line cs before behind : List Char}

-- ---------------------------------------------------------------------------
-- Finding a text at the front of a line
-- ---------------------------------------------------------------------------

/-- What is found stands there. -/
theorem eq_of_cutAt? (h : cutAt? part cs = some (before, behind)) : cs = before ++ part ++ behind := by
  induction cs generalizing before with
  | nil =>
    unfold cutAt? at h
    split at h
    · rename_i hempty
      cases h
      rw [List.isEmpty_iff.mp hempty]
      rfl
    · cases h
  | cons c cs ih =>
    unfold cutAt? at h
    split at h
    · rename_i hfront
      cases h
      exact (List.prefix_iff_eq_append.mp (List.isPrefixOf_iff_prefix.mp hfront)).symm
    · obtain ⟨⟨front, back⟩, hfound, heq⟩ := Option.map_eq_some_iff.mp h
      cases heq
      rw [ih hfound]
      rfl

/-- A text on one line is at the front of a line already without its line feed. -/
theorem prefix_append_feed_iff (hpart : '\n' ∉ part) (rest : List Char) :
    part <+: line ++ '\n' :: rest ↔ part <+: line := by
  refine ⟨fun ⟨more, heq⟩ => ?_, fun h => h.trans (List.prefix_append ..)⟩
  rcases List.append_eq_append_iff.mp heq with ⟨within, hline, -⟩ | ⟨past, hpast, hfeed⟩
  · exact ⟨within, hline.symm⟩
  · rcases past with _ | ⟨c, past⟩
    · rw [hpast, List.append_nil]
    · obtain ⟨rfl, -⟩ := List.cons.inj hfeed
      exact absurd (hpast ▸ List.mem_append_right line List.mem_cons_self) hpart

/-- A search for a line feed and what comes behind it goes on from line to line. -/
theorem cutAt?_append_feed (hline : '\n' ∉ line) (part rest : List Char) :
    cutAt? ('\n' :: part) (line ++ '\n' :: rest) =
      if part.isPrefixOf rest then some (line, rest.drop part.length)
      else (cutAt? ('\n' :: part) rest).map fun (before, behind) => (line ++ '\n' :: before, behind) := by
  induction line with
  | nil =>
    rw [List.nil_append, cutAt?]
    simp [List.isPrefixOf]
  | cons c line ih =>
    obtain ⟨hc, hline⟩ := List.ne_and_not_mem_of_not_mem_cons hline
    have hno : ('\n' :: part).isPrefixOf (c :: (line ++ '\n' :: rest)) = false := by
      simp [List.isPrefixOf, hc]
    rw [List.cons_append, cutAt?, hno, ih hline]
    cases part.isPrefixOf rest <;> simp [Function.comp_def]

/-- The first line behind another that begins with `part` is found. -/
theorem cutAt?_lines (hpart : '\n' ∉ part) {lines : List (List Char)} (hline : '\n' ∉ line)
    (hlines : ∀ line ∈ lines, '\n' ∉ line ∧ ¬ part <+: line) (rest : List Char) :
    cutAt? ('\n' :: part) ((line :: lines).flatMap (· ++ ['\n']) ++ (part ++ rest)) =
      some (['\n'].intercalate (line :: lines), rest) := by
  induction lines generalizing line with
  | nil =>
    have hfound := cutAt?_append_feed hline part (part ++ rest)
    rw [if_pos (List.isPrefixOf_iff_prefix.mpr (List.prefix_append ..)), List.drop_left] at hfound
    simpa using hfound
  | cons next lines ih =>
    obtain ⟨⟨hnext, hno⟩, hlines⟩ := List.forall_mem_cons.mp hlines
    have hbelow := ih hnext hlines
    have hsplit : (line :: next :: lines).flatMap (· ++ ['\n']) ++ (part ++ rest) =
        line ++ '\n' :: ((next :: lines).flatMap (· ++ ['\n']) ++ (part ++ rest)) := by simp
    have hnot : part.isPrefixOf ((next :: lines).flatMap (· ++ ['\n']) ++ (part ++ rest)) = false := by
      rw [Bool.eq_false_iff, ne_eq, List.isPrefixOf_iff_prefix]
      simpa [prefix_append_feed_iff hpart] using hno
    rw [hsplit, cutAt?_append_feed hline, hnot, hbelow, List.intercalate_cons_cons]
    simp

end Text

-- ---------------------------------------------------------------------------
-- Putting a fixture together
-- ---------------------------------------------------------------------------

/-- How the lines of a file end. -/
inductive LineEnd where
  | feed
  | returnFeed

/-- What stands in front of the line feed. -/
def LineEnd.before : LineEnd → List Char
  | feed => []
  | returnFeed => ['\r']

def LineEnd.text (e : LineEnd) : List Char :=
  e.before ++ ['\n']

namespace Fixture

/-- Whether a text can be a line of the settings: it has no line feed, does not end in a carriage return,
which would belong to its line end, and does not begin with the dashes that end the settings. -/
structure IsSettingsLine (line : List Char) : Prop where
  no_feed : '\n' ∉ line
  no_return : line.getLast? ≠ some '\r'
  no_dashes : ¬ ['-', '-', '-'] <+: line

/-- A fixture file: byte-order marks, the lines of the settings between two of dashes, and the document. -/
def assemble (marks : Nat) (e : LineEnd) (settings : List (List Char)) (document : List Char) : List Char :=
  List.replicate marks '\uFEFF' ++
    ((['-', '-', '-'] :: settings ++ [['-', '-', '-']]).flatMap (· ++ e.text) ++ document)

/-- What a fixture with these lines of settings and this document says: what the lines say as TOML, and the
document as it is. -/
def meant (e : LineEnd) (settings : List (List Char)) (document : List Char) :
    Except FixtureError (Fixture × String) :=
  let text := String.ofList (e.text.intercalate settings)
  match Toml.decode empty set text with
  | .ok fixture => .ok (fixture, String.ofList document)
  | .error cause => .error (.settings text cause)

-- ---------------------------------------------------------------------------
-- Taking it apart
-- ---------------------------------------------------------------------------

variable {settings : List (List Char)}

theorem dropLineEnd_text (e : LineEnd) (rest : List Char) : dropLineEnd (e.text ++ rest) = rest := by
  cases e <;> rfl

/-- The marks and the first line are taken off, and the second line of dashes is looked for in the rest. -/
theorem split_assemble (marks : Nat) (e : LineEnd) (settings : List (List Char)) (document : List Char) :
    split (assemble marks e settings document) =
      match Text.cutAt? "\n---".toList
        (settings.flatMap (· ++ e.text) ++ (['-', '-', '-'] ++ (e.text ++ document))) with
      | some (settings, behind) => .ok (Text.dropEndWhile (· = '\r') settings, dropLineEnd behind)
      | none => .error .noClosing := by
  have hmarks : (assemble marks e settings document).dropWhile (· = '\uFEFF') =
      '-' :: '-' :: '-' :: (e.text ++
        (settings.flatMap (· ++ e.text) ++ (['-', '-', '-'] ++ (e.text ++ document)))) := by
    rw [assemble, List.dropWhile_append_of_pos (by simp)]
    simp
  generalize settings.flatMap (· ++ e.text) ++ (['-', '-', '-'] ++ (e.text ++ document)) = rest at hmarks ⊢
  have hrest : dropLineEnd (('-' :: '-' :: '-' :: (e.text ++ rest)).drop 3) = rest := dropLineEnd_text e rest
  rw [split, hmarks, if_pos (by simp [List.isPrefixOf])]
  cases hcut : Text.cutAt? "\n---".toList rest <;> simp only [hrest, hcut]

/-- The lines of the settings with their line ends, cut at the line feeds. -/
theorem intercalate_lines (e : LineEnd) (h : settings ≠ []) :
    ['\n'].intercalate (settings.map (· ++ e.before)) = e.text.intercalate settings ++ e.before := by
  induction settings with
  | nil => exact absurd rfl h
  | cons line settings ih =>
    rcases settings with _ | ⟨next, settings⟩
    · simp
    · have hrest := ih (List.cons_ne_nil next settings)
      rw [List.map_cons] at hrest
      rw [List.map_cons, List.map_cons, List.intercalate_cons_cons, hrest, List.intercalate_cons_cons,
        LineEnd.text]
      simp

theorem getLast?_intercalate_text (e : LineEnd) (h : ∀ line ∈ settings, line.getLast? ≠ some '\r') :
    (e.text.intercalate settings).getLast? ≠ some '\r' := by
  induction settings with
  | nil => simp
  | cons line settings ih =>
    obtain ⟨hline, hsettings⟩ := List.forall_mem_cons.mp h
    rcases settings with _ | ⟨next, settings⟩
    · simpa using hline
    · have hrest := ih hsettings
      rw [List.intercalate_cons_cons, LineEnd.text, List.append_assoc]
      rcases heq : (e.before ++ ['\n']).intercalate (next :: settings) with _ | ⟨c, cs⟩
      · simp
      · rw [LineEnd.text, heq] at hrest
        rwa [List.getLast?_append_of_ne_nil _ (by simp), List.getLast?_append_of_ne_nil _ (by simp)]

/-- With settings, the file is taken apart into what it was put together from. -/
theorem split_assemble_of_ne_nil (marks : Nat) (e : LineEnd) (hne : settings ≠ [])
    (h : ∀ line ∈ settings, IsSettingsLine line) (document : List Char) :
    split (assemble marks e settings document) = .ok (e.text.intercalate settings, document) := by
  have hlines : settings.flatMap (· ++ e.text) =
      (settings.map (· ++ e.before)).flatMap (· ++ ['\n']) := by
    rw [List.flatMap_map]
    simp [LineEnd.text]
  have hbefore : '\n' ∉ e.before := by cases e <;> simp [LineEnd.before]
  have hwritten : ∀ line ∈ settings.map (· ++ e.before), '\n' ∉ line ∧ ¬ ['-', '-', '-'] <+: line := by
    intro line hmem
    obtain ⟨line, hline, rfl⟩ := List.mem_map.mp hmem
    have hsettings := h line hline
    refine ⟨fun hmem => (List.mem_append.mp hmem).elim hsettings.no_feed hbefore, fun hdashes => ?_⟩
    cases e with
    | feed => exact hsettings.no_dashes (by simpa [LineEnd.before] using hdashes)
    | returnFeed =>
      rcases List.prefix_concat_iff.mp hdashes with heq | hline
      · have hend := congrArg List.getLast? heq
        simp at hend
      · exact hsettings.no_dashes hline
  -- The closing dashes are the first that follow a line feed, as no line of settings begins with them.
  have hfound : Text.cutAt? "\n---".toList
      (settings.flatMap (· ++ e.text) ++ (['-', '-', '-'] ++ (e.text ++ document))) =
      some (e.text.intercalate settings ++ e.before, e.text ++ document) := by
    rw [hlines, ← intercalate_lines e hne]
    obtain ⟨line, rest, rfl⟩ := List.exists_cons_of_ne_nil hne
    rw [List.map_cons] at hwritten ⊢
    obtain ⟨hline, hrest⟩ := List.forall_mem_cons.mp hwritten
    exact Text.cutAt?_lines (by simp) hline.1 hrest (e.text ++ document)
  have hlast := getLast?_intercalate_text e fun line hline => (h line hline).no_return
  -- Of the last line end the carriage return is still there.
  have hsettings : Text.dropEndWhile (· = '\r') (e.text.intercalate settings ++ e.before) =
      e.text.intercalate settings := by
    refine Text.dropEndWhile_append e.before (fun c hc => decide_eq_false ?_) ?_
    · rintro rfl
      exact hlast hc
    · cases e <;> simp [LineEnd.before]
  rw [split_assemble, hfound]
  dsimp only
  rw [hsettings, dropLineEnd_text]

theorem length_dropLineEnd_le (cs : List Char) : (dropLineEnd cs).length ≤ cs.length := by
  unfold dropLineEnd
  split
  · simp only [List.length_cons]
    omega
  · simp
  · exact Nat.le_refl _

/-- Without settings a part of the document is lost, or all of it. -/
theorem ne_of_split_assemble_nil {marks : Nat} {e : LineEnd} {document text rest : List Char}
    (h : split (assemble marks e [] document) = .ok (text, rest)) : rest ≠ document := by
  rw [split_assemble] at h
  split at h
  · rename_i before behind hfound
    cases h
    have hcut := Text.eq_of_cutAt? hfound
    -- the search begins with the dashes, so the line feed that is found stands behind them
    have hbefore : 2 ≤ before.length := by
      rcases before with _ | ⟨c, _ | ⟨d, before⟩⟩
      · simp at hcut
      · simp at hcut
      · simp
    have hlength := congrArg List.length hcut
    have htext : e.text.length ≤ 2 := by cases e <;> simp [LineEnd.text, LineEnd.before]
    have hdropped := length_dropLineEnd_le behind
    simp only [List.flatMap_nil, List.nil_append, List.length_append, List.length_cons, List.length_nil,
      String.length_toList] at hlength
    have hdashes : "\n---".length = 4 := rfl
    intro heq
    have hsame := congrArg List.length heq
    omega
  · cases h

/-- **Fixtures.** A file that is put together from settings and a document is read as what they say exactly if
there is a line of settings, whatever the lines end in, whatever the document is, and with or without byte-order
marks in front. -/
theorem read_assemble_iff (marks : Nat) (e : LineEnd) (h : ∀ line ∈ settings, IsSettingsLine line)
    (document : List Char) :
    read (String.ofList (assemble marks e settings document)) = meant e settings document ↔
      settings ≠ [] := by
  constructor
  · rintro hread rfl
    have hmeant : meant e [] document = .ok (empty, String.ofList document) := by
      have hdecode : Toml.decode empty set "" = .ok empty := by cbv
      simp only [meant, List.intercalate_nil, String.ofList_nil, hdecode]
    rw [hmeant, read, String.toList_ofList] at hread
    cases hsplit : split (assemble marks e [] document) with
    | error cause =>
      rw [hsplit] at hread
      cases hread
    | ok parts =>
      obtain ⟨text, rest⟩ := parts
      have hother := ne_of_split_assemble_nil hsplit
      rw [hsplit] at hread
      dsimp only [bind, Except.bind] at hread
      split at hread
      · injection hread with hread
        exact hother (String.ofList_injective (congrArg Prod.snd hread))
      · cases hread
  · intro hne
    rw [read, String.toList_ofList, split_assemble_of_ne_nil marks e hne h document]
    rfl

/-- A byte-order mark, carriage returns, an empty line of settings, and a document that opens with a line break
and dashes. -/
theorem read_assemble_rule :
    let settings := [[], "exact = true".toList]
    (∀ line ∈ settings, IsSettingsLine line) ∧ settings ≠ [] ∧
      read "\uFEFF---\r\n\r\nexact = true\r\n---\r\n\n---\n" =
        .ok (⟨none, none, true, none, false, []⟩, "\n---\n") := by
  intro settings
  have hlines : ∀ line ∈ settings, IsSettingsLine line := by
    intro line hline
    rcases List.mem_cons.mp hline with rfl | hline
    · exact ⟨by decide, by decide, by decide⟩
    · rw [List.mem_singleton.mp hline]
      exact ⟨by decide, by decide, by decide⟩
  have hread := (read_assemble_iff 1 .returnFeed hlines "\n---\n".toList).mpr (List.cons_ne_nil _ _)
  have hmeant : meant .returnFeed settings "\n---\n".toList =
      .ok (⟨none, none, true, none, false, []⟩, "\n---\n") := by cbv
  exact ⟨hlines, List.cons_ne_nil _ _, hread.trans hmeant⟩

/-- Two lines of dashes without settings between them are taken for one. -/
theorem read_assemble_nil :
    assemble 0 .feed [] "Hello.\n".toList = "---\n---\nHello.\n".toList ∧
      read "---\n---\nHello.\n" = .error .noClosing ∧
      meant .feed [] "Hello.\n".toList = .ok (empty, "Hello.\n") :=
  ⟨by decide, by cbv, by cbv⟩

end Fixture

end Literate
