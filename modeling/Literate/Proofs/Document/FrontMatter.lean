import Literate.Proofs.Document.Rendering
import Literate.Proofs.Markdown.FrontMatter
import Literate.Proofs.Toml.Documents

/-!
# Front matter that is written

The metadata of a document is written as TOML between two lines of three plus signs. Among its values are
texts: strings, and inlines and blocks as they are rendered. A text of several lines is written on several
lines, and nothing escapes a plus sign, so a line of a text can be taken for the one that ends the front
matter (`ClosesFrontMatter`). That needs a line feed behind it: the last line of a text has its closing quotes
on the same line. Blanks behind the plus signs make no difference to whether such a line is written, but for
those that are escaped. The reader, however, ends front matter only at those with nothing but spaces.

Main result: `Document.frontMatter_whole`.
-/

namespace Literate

open Markdown (IsLiteral feeds eventsOf BeginsText)
open Text (splitFeeds isPluses)
open Toml (printDocument textsOfEntries)

/-- Whether a text has a line of three plus signs and blanks that is written on a line of its own. -/
def ClosesFrontMatter (blank : Char → Bool) (text : String) : Prop :=
  ∃ line ∈ (splitFeeds text.toList).dropLast,
    isPluses blank line = true ∧ ∀ c ∈ line, Toml.keeps text.toList c = true

instance (blank : Char → Bool) (text : String) : Decidable (ClosesFrontMatter blank text) :=
  have : ∀ line : List Char, Decidable (∀ c ∈ line, Toml.keeps text.toList c = true) :=
    fun line => List.decidableBAll _ line
  List.decidableBEx _ _

-- ---------------------------------------------------------------------------
-- Reading it back
-- ---------------------------------------------------------------------------

/-- The lines of the front matter. -/
def metadataLines (metadata : List (String × Metadata)) : List (List Char) :=
  (splitFeeds (printDocument (mapToToml metadata)).toList).dropLast

theorem feeds_metadataLines (metadata : List (String × Metadata)) :
    feeds (metadataLines metadata) = (printDocument (mapToToml metadata)).toList := by
  rw [metadataLines]
  obtain hnil | ⟨init, hinit⟩ := Text.isWhole_iff.mp (Toml.isWhole_printDocument (mapToToml metadata))
  · rw [hnil]
    rfl
  · rw [hinit, Text.splitFeeds_append_singleton, List.dropLast_concat,
      Markdown.feeds_eq_joined (Text.splitFeeds_ne_nil init), Markdown.joined, Text.intercalate_splitFeeds]

theorem isLiteral_of_mem_metadataLines {metadata : List (String × Metadata)} {line : List Char}
    (h : line ∈ metadataLines metadata) : IsLiteral line := by
  have hpiece := List.mem_of_mem_dropLast h
  have hwithin := Text.infix_of_mem_splitFeeds hpiece
  exact ⟨Text.notMem_of_mem_splitFeeds hpiece,
    fun hmem => Toml.return_notMem_printDocument _ (hwithin.mem hmem)⟩

/-- Front matter begins with a key or a header. -/
theorem exists_metadataLines {metadata : List (String × Metadata)} (h : metadata ≠ []) :
    ∃ line lines, metadataLines metadata = line :: lines ∧ BeginsText line ∧ line.head? ≠ some '+' := by
  have hentries : mapToToml metadata ≠ [] := by
    obtain ⟨⟨key, value⟩, rest, rfl⟩ := List.exists_cons_of_ne_nil h
    simp [mapToToml]
  obtain ⟨c, rest, htoml, hmark⟩ := Toml.exists_mark_printDocument hentries
  have hend := Text.isLineEnd_of_isMark hmark
  rw [← feeds_metadataLines] at htoml
  cases hlines : metadataLines metadata with
  | nil =>
    rw [hlines] at htoml
    cases htoml
  | cons line lines =>
    rw [hlines, Markdown.feeds_cons] at htoml
    cases line with
    | nil =>
      obtain ⟨rfl, -⟩ := List.cons.inj htoml
      cases hend
    | cons d line =>
      obtain ⟨rfl, -⟩ := List.cons.inj htoml
      refine ⟨_, _, rfl, ⟨d, line, rfl, Text.isGap_of_isMark hmark, hend⟩, ?_⟩
      rintro ⟨⟩
      cases hmark

theorem toList_render_metadata {d : Document} (h : d.metadata ≠ []) :
    d.render.toList = '+' :: '+' :: '+' :: '\n' ::
      (feeds (metadataLines d.metadata) ++ '+' :: '+' :: '+' :: '\n' :: '\n' ::
        (if (renderBlocks d.blocks).isEmpty then "" else renderBlocks d.blocks ++ "\n").toList) := by
  rw [feeds_metadataLines]
  have hmetadata : d.metadata.isEmpty = false := by simpa using h
  simp [Document.render, renderMetadata, hmetadata]

/-- The front matter that is found is what is written above the first line of plus signs and spaces. -/
theorem frontMatter?_render {d : Document} (h : d.metadata ≠ []) :
    ∃ events, frontMatter? (eventsOf true d.render) =
      some (4, String.ofList (feeds ((metadataLines d.metadata).takeWhile
        fun line => !isPluses (· = ' ') line)), events) := by
  have hrender := toList_render_metadata h
  obtain ⟨line, lines, hlines, hbegins, hplus⟩ := exists_metadataLines h
  have hliteral : ∀ line ∈ metadataLines d.metadata, IsLiteral line := fun _ => isLiteral_of_mem_metadataLines
  rw [hlines] at hrender hliteral ⊢
  obtain ⟨hline, hmore⟩ := List.forall_mem_cons.mp hliteral
  exact Markdown.frontMatter?_eventsOf hrender hline hmore hbegins hplus

-- ---------------------------------------------------------------------------
-- Lines that end it
-- ---------------------------------------------------------------------------

theorem feeds_takeWhile_eq_iff {p : List Char → Bool} {lines : List (List Char)} :
    feeds (lines.takeWhile p) = feeds lines ↔ ∀ line ∈ lines, p line = true := by
  induction lines with
  | nil => simp
  | cons line lines ih =>
    rw [List.forall_mem_cons, Markdown.feeds_cons]
    by_cases hline : p line = true
    · rw [List.takeWhile_cons_of_pos hline, Markdown.feeds_cons, and_iff_right hline, ← ih]
      simp
    · rw [List.takeWhile_cons_of_neg hline]
      refine iff_of_false ?_ fun hall => hline hall.1
      simp [feeds]

/-- The lines of plus signs in front matter are from its texts. -/
theorem forall_pluses_iff {blank : Char → Bool} (hblank : ∀ c, blank c = true → Text.isBlank c = true)
    (metadata : List (String × Metadata)) :
    (∀ line ∈ splitFeeds (printDocument (mapToToml metadata)).toList, isPluses blank line = false) ↔
      ∀ text ∈ textsOfEntries (mapToToml metadata), ¬ ClosesFrontMatter blank text := by
  have hiff := not_congr (Toml.exists_pluses_iff hblank (mapToToml metadata))
  simpa only [not_exists, not_and, Bool.not_eq_true, ClosesFrontMatter] using hiff

/-- The front matter that is found is all that is written exactly if no text in it has a line of plus signs
and spaces with a line feed behind it. -/
theorem exists_frontMatter?_iff {d : Document} (h : d.metadata ≠ []) :
    (∃ events, frontMatter? (eventsOf true d.render) =
        some (4, printDocument (mapToToml d.metadata), events)) ↔
      ∀ text ∈ textsOfEntries (mapToToml d.metadata), ¬ ClosesFrontMatter (· = ' ') text := by
  have hspace : ∀ c : Char, decide (c = ' ') = true → Text.isBlank c = true := by
    intro c hc
    obtain rfl : c = ' ' := by simpa using hc
    rfl
  obtain ⟨events, hfound⟩ := frontMatter?_render h
  have hlines : (∀ line ∈ metadataLines d.metadata, (!isPluses (· = ' ') line) = true) ↔
      ∀ line ∈ splitFeeds (printDocument (mapToToml d.metadata)).toList,
        isPluses (· = ' ') line = false := by
    simp only [Bool.not_eq_true']
    refine ⟨fun hall line hline => ?_, fun hall line hline => hall line (List.mem_of_mem_dropLast hline)⟩
    rcases (Toml.isWhole_printDocument _).mem_splitFeeds_iff.mp hline with hline | rfl
    · exact hall line hline
    · rfl
  rw [← forall_pluses_iff hspace, ← hlines, ← feeds_takeWhile_eq_iff, hfound]
  simp only [Option.some.injEq, Prod.mk.injEq, true_and, exists_and_left, exists_eq', and_true]
  rw [← String.toList_inj, String.toList_ofList, feeds_metadataLines]

namespace Document

/-- **Front matter that is written.** A line of three plus signs and blanks is in the TOML of a document only
if one of the texts in its metadata, at any depth, has such a line with a line feed behind it and no blank to
escape. What is read back as the front matter is all of the TOML exactly if no text has such a line with no
other blanks than spaces. -/
theorem frontMatter_whole {d : Document} (h : d.metadata ≠ []) :
    let toml := printDocument (mapToToml d.metadata)
    let texts := textsOfEntries (mapToToml d.metadata)
    ((∀ line ∈ splitFeeds toml.toList, isPluses Text.isBlank line = false) ↔
      ∀ text ∈ texts, ¬ ClosesFrontMatter Text.isBlank text) ∧
    ((∃ events, frontMatter? (eventsOf true d.render) = some (4, toml, events)) ↔
      ∀ text ∈ texts, ¬ ClosesFrontMatter (· = ' ') text) :=
  ⟨forall_pluses_iff (fun _ => id) d.metadata, exists_frontMatter?_iff h⟩

/-- Plus signs with a tab behind them, which is escaped, in a list; and others in code, on a last line and
behind a blank. -/
theorem frontMatter_whole_nested :
    let d : Document := ⟨[("notes", .list [.bool true, .str "+++\t\nend"]),
      ("parts", .map [("code", .blocks [.codeBlock .empty " +++\n++\n"]), ("sum", .str "a\n+++")])], []⟩
    d.metadata ≠ [] ∧
      (∀ line ∈ splitFeeds (printDocument (mapToToml d.metadata)).toList, isPluses Text.isBlank line = false) ∧
      ∃ events, frontMatter? (eventsOf true d.render) =
        some (4, printDocument (mapToToml d.metadata), events) := by
  intro d
  have hne : d.metadata ≠ [] := List.cons_ne_nil _ _
  have hkept := frontMatter_whole hne
  exact ⟨hne, hkept.1.mpr (by decide +kernel), hkept.2.mpr (by decide +kernel)⟩

/-- A line of plus signs in a string ends the front matter. -/
theorem not_frontMatter_whole :
    let d : Document := ⟨[("k", .str "a\n+++\nb")], []⟩
    (∃ line ∈ splitFeeds (printDocument (mapToToml d.metadata)).toList, isPluses Text.isBlank line = true) ∧
      ¬ ∃ events, frontMatter? (eventsOf true d.render) =
        some (4, printDocument (mapToToml d.metadata), events) := by
  intro d
  have hne : d.metadata ≠ [] := List.cons_ne_nil _ _
  have htext : "a\n+++\nb" ∈ textsOfEntries (mapToToml d.metadata) := by decide
  constructor
  · by_contra hnone
    have hlines : ∀ line ∈ splitFeeds (printDocument (mapToToml d.metadata)).toList,
        isPluses Text.isBlank line = false := by
      intro line hline
      exact Bool.eq_false_iff.mpr fun hpluses => hnone ⟨line, hline, hpluses⟩
    exact (forall_pluses_iff (fun _ => id) d.metadata).mp hlines _ htext (by decide +kernel)
  · rw [exists_frontMatter?_iff hne]
    exact fun hall => hall _ htext (by decide +kernel)

/-- So does one in a block of code. The front matter of a source that has it is read, but what is written of it is
not. -/
theorem parse_render_pluses :
    let d : Document := ⟨[("k", .blocks [.codeBlock .empty "+++\n"])], []⟩
    parse "+++\nk = \"```\\n+++\\n```\"\n+++\n" 0 = .ok d ∧
      (∃ line ∈ splitFeeds (printDocument (mapToToml d.metadata)).toList, isPluses Text.isBlank line = true) ∧
      ∃ errors, parse d.render 0 = .error errors := by
  intro d
  have hcode : renderBlocks [.codeBlock .empty "+++\n"] = "```\n+++\n```" := by cbv
  have htoml : printDocument (mapToToml d.metadata) = "k = \"\"\"\n```\n+++\n```\"\"\"\n" := by
    simp only [d, mapToToml, Metadata.toToml, hcode]
    decide +kernel
  have hrender : d.render = "+++\nk = \"\"\"\n```\n+++\n```\"\"\"\n+++\n\n" := by
    rw [render, renderMetadata, htoml]
    rfl
  refine ⟨by cbv, ⟨"+++".toList, ?_, rfl⟩, ?_⟩
  · rw [htoml]
    decide +kernel
  · rw [hrender]
    exact ⟨_, by cbv⟩

end Document

end Literate
