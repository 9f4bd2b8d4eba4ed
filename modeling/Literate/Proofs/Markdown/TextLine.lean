import Literate.Proofs.Markdown.LineStart
import Literate.Proofs.Markdown.Spelling

/-!
# Lines of text

A line is text, and nothing else, if its first character can begin no block. Such a line ends no paragraph
above it either, so a paragraph made of such lines goes on to the last of them (`readLines_text`). Its
marks and breaks are told by the phrases of the lines (`tokensOfLines_spells`): a line ends in a break that
is hard where a backslash stands at its end.

Main results:

* `readLines_text`: lines of text are read as a paragraph up to what stops it.
* `tokensOfLines_spells`: the tokens of the lines spell their content.
-/

namespace Literate.Markdown

-- ---------------------------------------------------------------------------
-- Paragraphs
-- ---------------------------------------------------------------------------

/-- Lines with their line feeds. -/
def feeds (lines : List (List Char)) : List Char :=
  lines.flatMap (· ++ ['\n'])

theorem feeds_cons (line : List Char) (lines : List (List Char)) :
    feeds (line :: lines) = line ++ '\n' :: feeds lines := by
  simp [feeds]

theorem length_le_feeds (lines : List (List Char)) : lines.length ≤ (feeds lines).length := by
  induction lines with
  | nil => exact Nat.le_refl 0
  | cons line lines ih =>
    rw [feeds_cons]
    simp only [List.length_cons, List.length_append]
    omega

/-- Lines below another, each with a line feed in front. -/
def beneath (lines : List (List Char)) : List Char :=
  lines.flatMap ('\n' :: ·)

theorem beneath_cons (line : List Char) (lines : List (List Char)) :
    beneath (line :: lines) = '\n' :: (line ++ beneath lines) := rfl

theorem beneath_append (first second : List (List Char)) :
    beneath (first ++ second) = beneath first ++ beneath second := by
  simp [beneath]

/-- The line feeds stand behind the lines above the last. -/
theorem beneath_concat (lines : List (List Char)) (last : List Char) :
    beneath (lines ++ [last]) = '\n' :: (feeds lines ++ last) := by
  induction lines with
  | nil => simp [beneath, feeds]
  | cons line lines ih => rw [List.cons_append, beneath_cons, ih, feeds_cons, List.append_assoc, List.cons_append]

theorem length_le_beneath (lines : List (List Char)) : lines.length ≤ (beneath lines).length := by
  induction lines with
  | nil => exact Nat.le_refl 0
  | cons line lines ih =>
    rw [beneath_cons]
    simp only [List.length_cons, List.length_append]
    omega

theorem AtEnd.beneath {rest : List Char} (h : AtEnd rest) (lines : List (List Char)) :
    AtEnd (beneath lines ++ rest) := by
  cases lines with
  | nil => exact h
  | cons line lines => exact .inr ⟨_, rfl⟩

/-- What ends a line, and what is below: a line feed, or nothing at the end of the text. -/
inductive EndsLine : List Char → List Char → Prop where
  | feed (below : List Char) : EndsLine ['\n'] below
  | last : EndsLine [] []

theorem EndsLine.atEnd_lineEnd {lineEnd below : List Char} (h : EndsLine lineEnd below) : AtEnd lineEnd := by
  cases h with
  | feed => exact .inr ⟨[], rfl⟩
  | last => exact .inl rfl

theorem EndsLine.atEnd {lineEnd below : List Char} (h : EndsLine lineEnd below) : AtEnd (lineEnd ++ below) := by
  cases h with
  | feed => exact .inr ⟨below, rfl⟩
  | last => exact .inl rfl

theorem EndsLine.isLineEnd {lineEnd below : List Char} (h : EndsLine lineEnd below) :
    ∀ c ∈ lineEnd, isLineEnd c = true := by
  cases h <;> simp [Markdown.isLineEnd]

theorem splitLine_append {cs : List Char} (h : '\n' ∉ cs) (rest : List Char) :
    splitLine (cs ++ '\n' :: rest) = (cs ++ ['\n'], rest) := by
  induction cs with
  | nil => rfl
  | cons c cs ih =>
    have hc : c ≠ '\n' := fun hc => h (hc ▸ List.mem_cons_self ..)
    have hrest := ih fun hmem => h (List.mem_cons_of_mem c hmem)
    rw [List.cons_append, splitLine, hrest]
    · rfl
    · exact hc

theorem splitLine_of_notMem {cs : List Char} (h : '\n' ∉ cs) : splitLine cs = (cs, []) := by
  induction cs with
  | nil => rfl
  | cons c cs ih =>
    rw [List.mem_cons, not_or] at h
    rw [splitLine, ih h.2]
    exact fun heq => h.1 heq.symm

theorem EndsLine.splitLine {lineEnd below : List Char} (h : EndsLine lineEnd below) {cs : List Char}
    (hcs : '\n' ∉ cs) : splitLine (cs ++ (lineEnd ++ below)) = (cs ++ lineEnd, below) := by
  cases h with
  | feed => exact splitLine_append hcs below
  | last =>
    rw [List.append_nil]
    exact splitLine_of_notMem (by rwa [List.append_nil])

/-- Whatever stands behind `margin`, a line that begins with it goes on in all containers. -/
def Enters (containers : List Container) (margin : List Char) : Prop :=
  ∀ rest, ∃ column, enter (.ofLine (margin ++ rest)) containers =
    (⟨rest, margin.reverse, column, 0⟩, containers.length)

/-- Whether the line at the front of `tail` goes on with no paragraph that stands in the containers. -/
def Stops (containers : List Container) (tail : List Char) : Prop :=
  let (c, n) := enter (.ofLine tail) containers
  let (inner, missing) := c.skip 4
  (missing = 0 ∨ n ≠ containers.length ∨ underline? inner.rest = none) ∧
    ((missing ≠ 0 ∧ interrupts containers (n = containers.length) inner.rest = true) ∨
      atLineEnd inner.skipAll.rest = true)

theorem IsTextLine.takeWhile_append {line : List Char} (h : IsTextLine line) {rest : List Char}
    (hrest : AtEnd rest) : (line ++ rest).takeWhile (fun c => !isLineEnd c) = line := by
  rw [List.takeWhile_append_of_pos (fun c hc => by simp [(h.inside c hc).1])]
  rcases hrest with rfl | ⟨below, rfl⟩ <;> simp [isLineEnd]

/-- A line is read up to its end. -/
theorem Line.read_text {cs : List Char} (h : IsTextLine cs) (margin : List Char) {lineEnd below : List Char}
    (hend : EndsLine lineEnd below) :
    Line.read margin (cs ++ (lineEnd ++ below)) = (⟨margin, cs, lineEnd⟩, below) := by
  rw [Line.read, h.takeWhile_append hend.atEnd]
  cases hend <;> simp [afterLineEnd?]

/-- The line above a line that a paragraph does not go on with is its last. -/
theorem readLines_stop {containers : List Container} {tail : List Char} (h : Stops containers tail)
    {line : List Char} (hline : IsTextLine line) {lineEnd : List Char} (hend : EndsLine lineEnd tail)
    (before : List Char) (fuel : Nat) :
    readLines containers (fuel + 1) before (line ++ (lineEnd ++ tail)) =
      ([⟨before, line, lineEnd⟩], none, tail) := by
  rcases henter : enter (.ofLine tail) containers with ⟨c, n⟩
  rcases hskip : c.skip 4 with ⟨inner, missing⟩
  simp only [Stops, henter, hskip] at h
  obtain ⟨hunderline, hends⟩ := h
  have hnone : (if (missing ≠ 0 && n = containers.length) = true then underline? inner.rest
      else none) = none := by
    rcases hunderline with h | h | h <;> simp [h]
  rw [readLines, Line.read_text hline before hend]
  simp only [henter, hskip]
  rw [hnone]
  simp only []
  rw [if_pos]
  simpa using hends

/-- A line above a line of text is followed by it. -/
theorem readLines_step {containers : List Container} {margin : List Char}
    (hmargin : Enters containers margin) {line next : List Char} (hline : IsTextLine line)
    (hnext : IsTextLine next) (before : List Char) {below : List Char} (hbelow : AtEnd below) (fuel : Nat) :
    readLines containers (fuel + 1) before (line ++ '\n' :: (margin ++ (next ++ below))) =
      (⟨before, line, ['\n']⟩ :: (readLines containers fuel margin (next ++ below)).1,
        (readLines containers fuel margin (next ++ below)).2) := by
  have hinterrupts := hnext.interrupts hbelow containers
  have hunderline := hnext.underline? below
  have hat_end := hnext.atLineEnd below
  obtain ⟨c, rest, rfl, hc⟩ := hnext.exists_cons
  obtain ⟨column, henter⟩ := hmargin (c :: rest ++ below)
  rw [List.cons_append] at henter hinterrupts hunderline hat_end
  have hgap := isGap_of_not_startsBlock hc
  have hskip := skip_of_not_isGap hgap (rest ++ below) margin.reverse column (n := 4) (by omega)
  have hread := Line.read_text hline before (.feed (margin ++ (c :: rest ++ below)))
  rw [List.singleton_append] at hread
  rw [readLines, hread]
  simp only [henter, List.cons_append, hskip, hunderline, hinterrupts, skipAll_of_not_isGap hgap, hat_end]
  simp [Cursor.margin]

/-- Lines of text are read as a paragraph, up to a line that stops it. -/
theorem readLines_text {containers : List Container} {margin : List Char}
    (hmargin : Enters containers margin) {tail : List Char} (htail : Stops containers tail)
    {lineEnd : List Char} (hend : EndsLine lineEnd tail) {first : List Char} (hfirst : IsTextLine first)
    (lines : List (List Char)) (hlines : ∀ line ∈ lines, IsTextLine line) (before : List Char) (fuel : Nat)
    (hfuel : lines.length < fuel) :
    ∃ read : List Line, readLines containers fuel before
        (first ++ (beneath (lines.map (margin ++ ·)) ++ (lineEnd ++ tail))) = (read, none, tail) ∧
      read.map (·.text) = first :: lines ∧ ∀ line ∈ read, AtEnd line.lineEnd := by
  induction lines generalizing first before fuel with
  | nil =>
    obtain ⟨fuel, rfl⟩ : ∃ n, fuel = n + 1 := ⟨fuel - 1, by simp at hfuel; omega⟩
    exact ⟨_, readLines_stop htail hfirst hend before fuel, rfl, List.forall_mem_singleton.2 hend.atEnd_lineEnd⟩
  | cons line lines ih =>
    obtain ⟨fuel, rfl⟩ : ∃ n, fuel = n + 1 := ⟨fuel - 1, by simp at hfuel; omega⟩
    have hline := hlines line (List.mem_cons_self ..)
    have hothers : ∀ other ∈ lines, IsTextLine other := fun other hother =>
      hlines other (List.mem_cons_of_mem line hother)
    obtain ⟨read, hread, htexts, hends⟩ := ih hline hothers margin fuel (by simpa using hfuel)
    have hbeneath : beneath ((line :: lines).map (margin ++ ·)) ++ (lineEnd ++ tail) =
        '\n' :: (margin ++ (line ++ (beneath (lines.map (margin ++ ·)) ++ (lineEnd ++ tail)))) := by
      simp [beneath]
    have hbelow : AtEnd (beneath (lines.map (margin ++ ·)) ++ (lineEnd ++ tail)) := hend.atEnd.beneath _
    refine ⟨⟨before, first, ['\n']⟩ :: read, ?_, congrArg (first :: ·) htexts,
      List.forall_mem_cons.2 ⟨.inr ⟨[], rfl⟩, hends⟩⟩
    rw [hbeneath, readLines_step hmargin hfirst hline before hbelow, hread]

-- ---------------------------------------------------------------------------
-- Lines of phrases
-- ---------------------------------------------------------------------------

/-- The inlines of a line, and whether the break behind it is a hard one. -/
structure TextLine where
  inlines : List Inline
  hard : Bool

/-- A line that is a phrase, begins no other block and ends without a gap or a backslash. -/
structure TextLine.Fair (line : TextLine) : Prop where
  phrase : Phrase false false none none line.inlines
  first : ∃ c rest, spelling line.inlines = c :: rest ∧ BeginsParagraph c rest
  last : ∀ c ∈ (spelling line.inlines).getLast?, isGap c = false ∧ c ≠ '\\'

/-- Whether a line is a phrase that can stand as it is. -/
def TextLine.isFair (line : TextLine) : Bool :=
  isPhrase false false none none line.inlines && opensParagraph (spelling line.inlines) &&
    (spelling line.inlines).getLast?.all (fun c => !isGap c && c ≠ '\\')

theorem TextLine.Fair.of_isFair {line : TextLine} (h : line.isFair = true) : line.Fair := by
  rw [isFair, Bool.and_eq_true, Bool.and_eq_true] at h
  obtain ⟨⟨hphrase, hfirst⟩, hlast⟩ := h
  refine ⟨.of_isPhrase hphrase, BeginsParagraph.of_opensParagraph hfirst, fun d hd => ?_⟩
  simpa using (Option.all_eq_true _ _).1 hlast d hd

/-- The inlines of lines, with the breaks between them. -/
def contentOf : List TextLine → List Inline
  | [] => []
  | [line] => line.inlines
  | line :: next :: lines =>
    line.inlines ++ (if line.hard then .hardBreak else .softBreak) :: contentOf (next :: lines)

/-- Lines as they are written, a backslash at the end of each that ends in a hard break. -/
def writtenLines : List TextLine → List (List Char)
  | [] => []
  | [line] => [spelling line.inlines]
  | line :: next :: lines =>
    (spelling line.inlines ++ if line.hard then ['\\'] else []) :: writtenLines (next :: lines)

theorem writtenLines_ne_nil (line : TextLine) (lines : List TextLine) :
    writtenLines (line :: lines) ≠ [] := by
  cases lines <;> exact List.cons_ne_nil _ _

/-- A paragraph is written line by line. -/
theorem spelling_contentOf (lines : List TextLine) :
    spelling (contentOf lines) = ['\n'].intercalate (writtenLines lines) := by
  induction lines with
  | nil => rfl
  | cons line lines ih =>
    cases lines with
    | nil => simp [contentOf, writtenLines]
    | cons next lines =>
      obtain ⟨written, others, hwritten⟩ :=
        List.exists_cons_of_ne_nil (writtenLines_ne_nil next lines)
      rw [contentOf, spelling_append, spelling_cons, ih, writtenLines, hwritten,
        List.intercalate_cons_cons]
      cases line.hard <;> simp [Inline.render]

theorem TextLine.Fair.isTextLine {line : TextLine} (h : line.Fair) (hard : Bool) :
    IsTextLine (spelling line.inlines ++ if hard then ['\\'] else []) := by
  obtain ⟨c, rest, hspelling, hc⟩ := h.first
  cases hard with
  | false =>
    rw [if_neg Bool.false_ne_true, List.append_nil]
    exact ⟨⟨c, rest, hspelling, hc⟩, fun d hd => (h.last d hd).1, h.phrase.inline⟩
  | true =>
    rw [if_pos rfl]
    refine ⟨⟨c, rest ++ ['\\'], by rw [hspelling, List.cons_append], hc.append_slash⟩, fun d hd => ?_, ?_⟩
    · rw [List.getLast?_concat] at hd
      cases hd
      rfl
    · exact List.forall_mem_append.2 ⟨h.phrase.inline, List.forall_mem_singleton.2 ⟨rfl, by decide⟩⟩

/-- The lines of a paragraph are lines of text. -/
theorem isTextLine_of_mem_writtenLines {lines : List TextLine} (h : ∀ line ∈ lines, line.Fair) :
    ∀ cs ∈ writtenLines lines, IsTextLine cs := by
  induction lines with
  | nil => intro cs hcs; cases hcs
  | cons line lines ih =>
    have hline := h line (List.mem_cons_self ..)
    intro cs hcs
    cases lines with
    | nil =>
      rw [writtenLines, List.mem_singleton] at hcs
      have htext := hline.isTextLine false
      rw [if_neg Bool.false_ne_true, List.append_nil, ← hcs] at htext
      exact htext
    | cons next lines =>
      rw [writtenLines, List.mem_cons] at hcs
      rcases hcs with rfl | hcs
      · exact hline.isTextLine line.hard
      · exact ih (fun other hother => h other (List.mem_cons_of_mem line hother)) cs hcs

section

variable {cs : List Char} (h : IsTextLine cs) (margin lineEnd : List Char)
include h

theorem Line.indent_text : (Line.mk margin cs lineEnd).indent = [] := by
  obtain ⟨c, rest, rfl, hc⟩ := h.exists_cons
  obtain ⟨hspace, htab⟩ := ne_blank_of_isGap (isGap_of_not_startsBlock hc)
  simp [Line.indent, hspace, htab]

theorem dropEndWhile_isGap_text : Text.dropEndWhile isGap cs = cs := by
  have hdrop := Text.dropEndWhile_append [] h.last (by simp)
  rwa [List.append_nil] at hdrop

theorem Line.body_text : (Line.mk margin cs lineEnd).body = cs := by
  rw [Line.body, Line.indent_text h]
  exact dropEndWhile_isGap_text h

theorem Line.trail_text : (Line.mk margin cs lineEnd).trail = [] := by
  rw [Line.trail, Line.indent_text h, Line.body_text h]
  simp

end

/-- A line has a backslash at its end only for a hard break. -/
theorem TextLine.Fair.endsInBackslash {line : TextLine} (h : line.Fair) (hard : Bool)
    (margin lineEnd : List Char) :
    (Line.mk margin (spelling line.inlines ++ if hard then ['\\'] else []) lineEnd).endsInBackslash =
      hard := by
  have hzero : runLength '\\' (spelling line.inlines).reverse = 0 := by
    cases hreverse : (spelling line.inlines).reverse with
    | nil => rfl
    | cons c cs =>
      refine runLength_cons_of_ne (h.last c ?_).2 cs
      rw [← List.head?_reverse, hreverse]
      rfl
  have htext := h.isTextLine hard
  rw [Line.endsInBackslash, Line.trail_text htext, Line.body_text htext]
  cases hard with
  | false => simp [hzero]
  | true =>
    rw [runLength] at hzero
    simp [runLength, hzero]

theorem AtEnd.head?_isBlank {rest : List Char} (h : AtEnd rest) :
    ∀ c ∈ rest.head?, (Text.isBlank c || Text.isPunctuation c) = true := by
  rcases h with rfl | ⟨below, rfl⟩ <;> rintro c ⟨⟩
  decide

/-- The tokens of the last line spell its inlines. -/
theorem TextLine.Fair.tokens_last {line : TextLine} (h : line.Fair) (margin : List Char) {lineEnd : List Char}
    (hend : AtEnd lineEnd) (braces : Braces) :
    Spells false false false ((Line.mk margin (spelling line.inlines) lineEnd).tokens none braces).1 []
      line.inlines := by
  have htext := h.isTextLine false
  rw [if_neg Bool.false_ne_true, List.append_nil] at htext
  simp only [Line.tokens, Line.indent_text htext, Line.body_text htext, Line.trail_text htext]
  exact h.phrase.spells false hend.head?_isBlank braces

/-- The tokens of any other line are those of its inlines and the break behind them. -/
theorem TextLine.Fair.tokens_inner {line : TextLine} (h : line.Fair) (margin : List Char) {lineEnd : List Char}
    (hend : AtEnd lineEnd) (next : Line) (braces : Braces) :
    ∃ tokens raw, ((Line.mk margin (spelling line.inlines ++ if line.hard then ['\\'] else []) lineEnd).tokens
        (some next) braces).1 = tokens ++ [.lineBreak line.hard raw next.margin] ∧
      Spells false false false tokens [] line.inlines := by
  have htext := h.isTextLine line.hard
  have hends := h.endsInBackslash line.hard margin lineEnd
  cases hhard : line.hard with
  | false =>
    rw [hhard] at htext hends
    simp only [Bool.false_eq_true, if_false, List.append_nil] at htext hends ⊢
    refine ⟨_, lineEnd, ?_, h.phrase.spells false hend.head?_isBlank braces⟩
    simp only [Line.tokens, hends, Line.indent_text htext, Line.body_text htext, Line.trail_text htext]
    simp
  | true =>
    rw [hhard] at htext hends
    simp only [if_true] at htext hends ⊢
    have hslash : ∀ c ∈ ('\\' :: lineEnd).head?, (Text.isBlank c || Text.isPunctuation c) = true := by
      rintro c ⟨⟩
      decide
    refine ⟨_, '\\' :: lineEnd, ?_, h.phrase.spells false hslash braces⟩
    simp only [Line.tokens, hends, Line.indent_text htext, Line.body_text htext, List.dropLast_concat]
    simp

/-- The tokens of the lines of a paragraph spell its inlines. -/
theorem tokensOfLines_spells {lines : List TextLine} (h : ∀ line ∈ lines, line.Fair)
    {written : List Line} (hwritten : written.map (·.text) = writtenLines lines)
    (hends : ∀ line ∈ written, AtEnd line.lineEnd) (braces : Braces) :
    Spells false false false (tokensOfLines braces written) [] (contentOf lines) := by
  induction lines generalizing written braces with
  | nil =>
    rw [writtenLines, List.map_eq_nil_iff] at hwritten
    rw [hwritten]
    exact fun _ _ _ _ _ hreads => hreads
  | cons line lines ih =>
    have hline := h line (List.mem_cons_self ..)
    -- The last line is read to its end, any other with the break behind it.
    cases lines with
    | nil =>
      obtain ⟨⟨margin, text, lineEnd⟩, rfl, htext⟩ := List.map_eq_singleton_iff.1 hwritten
      obtain rfl : text = spelling line.inlines := htext
      have hspells := hline.tokens_last margin (hends _ List.mem_cons_self) braces
      rw [tokensOfLines, List.head?_nil]
      simpa [tokensOfLines, contentOf] using hspells
    | cons next lines =>
      rw [writtenLines] at hwritten
      obtain ⟨⟨margin, text, lineEnd⟩, others, rfl, htext, hothers⟩ := List.map_eq_cons_iff.1 hwritten
      obtain rfl : text = spelling line.inlines ++ if line.hard then ['\\'] else [] := htext
      obtain ⟨hend, hends⟩ := List.forall_mem_cons.1 hends
      obtain ⟨second, more, rfl⟩ : ∃ second more, others = second :: more := by
        cases others with
        | nil => exact absurd hothers.symm (writtenLines_ne_nil next lines)
        | cons second more => exact ⟨second, more, rfl⟩
      obtain ⟨tokens, raw, htokens, hspells⟩ := hline.tokens_inner margin hend second braces
      have hrest := ih (fun other hother => h other (List.mem_cons_of_mem line hother)) hothers hends
      rcases hread : Line.tokens (some second) braces ⟨margin, _, lineEnd⟩ with ⟨front, after⟩
      rw [hread] at htokens
      obtain rfl : front = tokens ++ [.lineBreak line.hard raw second.margin] := htokens
      rw [tokensOfLines, List.head?_cons, hread, contentOf]
      dsimp only
      rw [List.append_assoc]
      exact hspells.lineBreak (hrest after) line.hard raw second.margin

end Literate.Markdown
