import Literate.Proofs.Markdown.RunLength
import Literate.Proofs.Text.Runs
import Literate.Markdown.Leaf

/-!
# Lines that begin no block

A line is text, and nothing else, if nothing but a paragraph can begin with it. That can mostly be seen from its first
character. An asterisk may begin an item or a rule, a backtick or a tilde a fence, a bracket the definition of a label
and a digit a numbered item; then some of what follows has to be looked at as well (`BeginsParagraph`). A line of text
ends no paragraph above it either (`IsTextLine.interrupts`).
-/

namespace Literate.Markdown

-- ---------------------------------------------------------------------------
-- Cursors
-- ---------------------------------------------------------------------------

theorem ne_blank_of_isGap {c : Char} (h : isGap c = false) : c ≠ ' ' ∧ c ≠ '\t' := by
  simp only [isGap, Bool.or_eq_false_iff, decide_eq_false_iff_not] at h
  exact ⟨h.1.1.1, h.1.1.2⟩

/-- No column is skipped where no blank stands. -/
theorem skip_of_not_isGap {c : Char} (h : isGap c = false) (cs taken : List Char) (column : Nat)
    {n : Nat} (hn : n ≠ 0) :
    (Cursor.mk (c :: cs) taken column 0).skip n = (⟨c :: cs, taken, column, 0⟩, n) := by
  obtain ⟨hspace, htab⟩ := ne_blank_of_isGap h
  simp [Cursor.skip, Cursor.skipBlanks, hn, hspace, htab]

theorem skipAll_of_not_isGap {c : Char} (h : isGap c = false) (cs taken : List Char)
    (column pending : Nat) : (Cursor.mk (c :: cs) taken column pending).skipAll.rest = c :: cs := by
  obtain ⟨hspace, htab⟩ := ne_blank_of_isGap h
  simp [Cursor.skipAll, Cursor.step, hspace, htab]

-- ---------------------------------------------------------------------------
-- The first characters
-- ---------------------------------------------------------------------------

/-- The end of a text or of a line. -/
def AtEnd (rest : List Char) : Prop :=
  rest = [] ∨ ∃ below, rest = '\n' :: below

/-- A character that only another block begins with, or that no line of text begins with. -/
def startsBlock (c : Char) : Bool :=
  isGap c || isLineEnd c || "#>-+=|<_".toList.contains c

theorem ne_of_startsBlock {c d : Char} (h : startsBlock c = false) (hd : startsBlock d = true) :
    c ≠ d := by
  rintro rfl
  rw [h] at hd
  cases hd

/-- Whether behind an opening bracket a label may be defined, or may go on below. -/
def mayDefine : List Char → Bool
  | [] => true
  | '\\' :: _ :: cs => mayDefine cs
  | c :: cs => if c = '[' then false else if c = ']' then cs.head? = some ':' else mayDefine cs

/-- The characters of a line with which nothing but a paragraph can begin. -/
structure BeginsParagraph (c : Char) (cs : List Char) : Prop where
  first : startsBlock c = false
  marker : c ≠ '*' → Marker.read? (c :: cs) = none
  star : c = '*' → (∃ d ∈ cs.head?, isGap d = false) ∧ ∃ d ∈ cs, d ≠ '*' ∧ isGap d = false
  fence : c = '\x60' ∨ c = '~' → runLength c cs < 2
  bracket : c = '[' → mayDefine cs = false

/-- Whether nothing but a paragraph can begin with a line. -/
def opensParagraph : List Char → Bool
  | [] => false
  | c :: cs =>
    !startsBlock c &&
      (if c = '*' then cs.head?.any (fun d => !isGap d) && cs.any fun d => d ≠ '*' && !isGap d
        else (Marker.read? (c :: cs)).isNone) &&
      (!(c = '\x60' || c = '~') || runLength c cs < 2) && (c ≠ '[' || !mayDefine cs)

theorem BeginsParagraph.of_opensParagraph {line : List Char} (h : opensParagraph line = true) :
    ∃ c cs, line = c :: cs ∧ BeginsParagraph c cs := by
  cases line with
  | nil => cases h
  | cons c cs =>
    simp only [opensParagraph, Bool.and_eq_true, Bool.or_eq_true, Bool.not_eq_true', decide_eq_true_eq] at h
    obtain ⟨⟨⟨hfirst, hmarker⟩, hfence⟩, hbracket⟩ := h
    refine ⟨c, cs, rfl, hfirst, fun hstar => ?_, fun hstar => ?_, fun hmark => ?_, fun hopen => ?_⟩
    · rw [if_neg hstar] at hmarker
      exact Option.isNone_iff_eq_none.1 hmarker
    · rw [if_pos hstar, Bool.and_eq_true, Option.any_eq_true, List.any_eq_true] at hmarker
      simpa using hmarker
    · refine hfence.resolve_left fun hneither => ?_
      simp only [Bool.or_eq_false_iff, decide_eq_false_iff_not] at hneither
      exact hmark.elim hneither.1 hneither.2
    · exact hbracket.resolve_left fun hne => hne hopen

/-- A line of text: it can begin no block, ends without a gap, and has no bar of a table in it. -/
structure IsTextLine (cs : List Char) : Prop where
  first : ∃ c rest, cs = c :: rest ∧ BeginsParagraph c rest
  last : ∀ c ∈ cs.getLast?, isGap c = false
  inside : ∀ c ∈ cs, isLineEnd c = false ∧ c ≠ '|'

theorem isGap_of_not_startsBlock {c : Char} (h : startsBlock c = false) : isGap c = false := by
  simp only [startsBlock, Bool.or_eq_false_iff] at h
  exact h.1.1

theorem IsTextLine.exists_cons {line : List Char} (h : IsTextLine line) :
    ∃ c cs, line = c :: cs ∧ startsBlock c = false := by
  obtain ⟨c, cs, rfl, hc⟩ := h.first
  exact ⟨c, cs, rfl, hc.first⟩

theorem AtEnd.head?_ne {rest : List Char} (h : AtEnd rest) {c : Char} (hc : c ≠ '\n') : rest.head? ≠ some c := by
  rcases h with rfl | ⟨below, rfl⟩
  · simp
  · simpa using hc.symm

/-- What is taken of a text does not get longer by what is not taken. -/
theorem takeWhile_append_of_head? {p : Char → Bool} {rest : List Char} (h : ∀ c ∈ rest.head?, p c = false)
    (cs : List Char) : (cs ++ rest).takeWhile p = cs.takeWhile p := by
  have hnone : rest.takeWhile p = [] := by
    cases rest with
    | nil => rfl
    | cons c rest =>
      rw [List.takeWhile_cons, h c rfl]
      rfl
  rw [List.takeWhile_append, hnone]
  split_ifs with hall
  · rw [List.append_nil]
    exact ((List.takeWhile_prefix p).eq_of_length hall).symm
  · rfl

theorem AtEnd.takeWhile_append {rest : List Char} (h : AtEnd rest) {p : Char → Bool} (hp : p '\n' = false)
    (cs : List Char) : (cs ++ rest).takeWhile p = cs.takeWhile p := by
  refine takeWhile_append_of_head? (fun c hc => ?_) cs
  rcases h with rfl | ⟨below, rfl⟩
  · cases hc
  · cases hc
    exact hp

/-- A character that a marker does not go on with. -/
def endsMarker (c : Char) : Bool :=
  !(c.isDigit || c = '.' || c = ')')

/-- What is no marker does not become one by what no marker goes on with. -/
theorem read?_append {c : Char} {cs rest : List Char} (hfirst : startsBlock c = false) (hstar : c ≠ '*')
    (h : Marker.read? (c :: cs) = none) (hrest : ∀ d ∈ rest.head?, endsMarker d = true) :
    Marker.read? (c :: cs ++ rest) = none := by
  have hdash : c ≠ '-' := ne_of_startsBlock hfirst (by decide)
  have hplus : c ≠ '+' := ne_of_startsBlock hfirst (by decide)
  have hends : ∀ d ∈ rest.head?, d.isDigit = false ∧ d ≠ '.' ∧ d ≠ ')' := by
    intro d hd
    simpa [endsMarker, and_assoc] using hrest d hd
  have hdigits : (c :: (cs ++ rest)).takeWhile Char.isDigit = (c :: cs).takeWhile Char.isDigit :=
    takeWhile_append_of_head? (fun d hd => (hends d hd).1) (c :: cs)
  have hdrop : (c :: (cs ++ rest)).drop ((c :: cs).takeWhile Char.isDigit).length =
      (c :: cs).drop ((c :: cs).takeWhile Char.isDigit).length ++ rest :=
    List.drop_append_of_le_length (List.takeWhile_prefix _).length_le
  rw [List.cons_append]
  simp only [Marker.read?, hdash, hplus, hstar, decide_false, Bool.or_false, Bool.false_eq_true, if_false] at h ⊢
  rw [hdigits, hdrop]
  split_ifs at h ⊢
  · rfl
  · cases hbehind : (c :: cs).drop ((c :: cs).takeWhile Char.isDigit).length with
    | nil =>
      cases rest with
      | nil => rfl
      | cons d rest => simp [hends d rfl]
    | cons d ds =>
      rw [hbehind] at h
      by_cases hmark : (decide (d = '.') || decide (d = ')')) = true <;> simp [hmark] at h ⊢

/-- Only where nothing is left may a label go on behind a backslash. -/
theorem ne_slash_of_mayDefine {c : Char} {cs : List Char} (hslash : ∀ d ds, c = '\\' → cs = d :: ds → False)
    (h : mayDefine cs = false) : c ≠ '\\' := by
  rintro rfl
  cases cs with
  | nil => cases h
  | cons d cs => exact hslash d cs rfl rfl

theorem mayDefine_append {cs rest : List Char} (h : mayDefine cs = false) (hrest : rest.head? ≠ some ':') :
    mayDefine (cs ++ rest) = false := by
  fun_induction mayDefine cs with
  | case1 => cases h
  | case2 d cs ih => exact ih h
  | case3 cs => rw [List.cons_append, mayDefine] <;> simp
  | case4 cs hslash hopen =>
    have hhead : (cs ++ rest).head? ≠ some ':' := by
      rw [List.head?_append]
      cases cs with
      | nil => exact hrest
      | cons d cs => simpa using h
    rw [List.cons_append, mayDefine]
    · simpa using hhead
    · simp
  | case5 c cs hslash hopen hclose ih =>
    have hescape := ne_slash_of_mayDefine hslash h
    rw [List.cons_append, mayDefine, if_neg hopen, if_neg hclose, ih h]
    exact fun _ _ heq => absurd heq hescape

/-- A paragraph still begins with a line that has a backslash behind it. -/
theorem BeginsParagraph.append_slash {c : Char} {cs : List Char} (h : BeginsParagraph c cs) :
    BeginsParagraph c (cs ++ ['\\']) := by
  refine ⟨h.first, fun hstar => ?_, fun hstar => ?_, fun hmark => ?_, fun hopen => ?_⟩
  · exact read?_append h.first hstar (h.marker hstar) (by simp [endsMarker])
  · obtain ⟨⟨d, hd, hgap⟩, e, he, hother⟩ := h.star hstar
    refine ⟨⟨d, ?_, hgap⟩, e, List.mem_append_left _ he, hother⟩
    rw [List.head?_append, Option.mem_def.1 hd]
    rfl
  · have hslash : ∀ d ∈ ['\\'].head?, decide (d = c) = false := by
      rintro d ⟨⟩
      rcases hmark with rfl | rfl <;> rfl
    rw [runLength, takeWhile_append_of_head? hslash]
    exact h.fence hmark
  · exact mayDefine_append (h.bracket hopen) (by simp)

-- ---------------------------------------------------------------------------
-- Lines of text
-- ---------------------------------------------------------------------------

section

variable {line : List Char} (h : IsTextLine line) {rest : List Char} (hrest : AtEnd rest)
include h

theorem IsTextLine.atLineEnd (rest : List Char) : atLineEnd (line ++ rest) = false := by
  obtain ⟨c, cs, rfl, hc⟩ := h.exists_cons
  have hfeed : c ≠ '\n' := ne_of_startsBlock hc (by decide)
  have hreturn : c ≠ '\r' := ne_of_startsBlock hc (by decide)
  simp [Markdown.atLineEnd, afterLineEnd?, hfeed, hreturn]

theorem IsTextLine.headingLevel? (rest : List Char) : headingLevel? (line ++ rest) = none := by
  obtain ⟨c, cs, rfl, hc⟩ := h.exists_cons
  have hsign : c ≠ '#' := ne_of_startsBlock hc (by decide)
  simp [Markdown.headingLevel?, runLength, hsign]

theorem IsTextLine.underline? (rest : List Char) : underline? (line ++ rest) = none := by
  obtain ⟨c, cs, rfl, hc⟩ := h.exists_cons
  have hequals : c ≠ '=' := ne_of_startsBlock hc (by decide)
  have hdash : c ≠ '-' := ne_of_startsBlock hc (by decide)
  simp [Markdown.underline?, hequals, hdash]

/-- Behind an asterisk the text goes on at once. -/
theorem IsTextLine.exists_behind_star (hstar : line.head? = some '*') :
    ∃ d cs, line = '*' :: d :: cs ∧ isGap d = false ∧ isLineEnd d = false := by
  obtain ⟨c, cs, rfl, hc⟩ := h.first
  obtain rfl : c = '*' := by simpa using hstar
  obtain ⟨⟨d, hd, hgap⟩, -⟩ := hc.star rfl
  obtain ⟨ds, rfl⟩ := List.head?_eq_some_iff.1 hd
  exact ⟨d, ds, rfl, hgap, (h.inside d (by simp)).1⟩

include hrest

/-- Asterisks with something else between or behind them are no rule. -/
theorem IsTextLine.afterRule? : afterRule? (line ++ rest) = none := by
  obtain ⟨c, cs, rfl, hc⟩ := h.first
  have hdash : c ≠ '-' := ne_of_startsBlock hc.first (by decide)
  have hlow : c ≠ '_' := ne_of_startsBlock hc.first (by decide)
  by_cases hstar : c = '*'
  · subst hstar
    obtain ⟨-, d, hd, hother, hgap⟩ := hc.star rfl
    let p := fun c => decide (c = '*') || decide (c = ' ') || decide (c = '\t')
    have htake : ('*' :: cs ++ rest).takeWhile p = '*' :: cs.takeWhile p :=
      congrArg ('*' :: ·) (hrest.takeWhile_append rfl cs)
    have hdrop : ('*' :: cs ++ rest).drop ('*' :: cs.takeWhile p).length = cs.dropWhile p ++ rest := by
      have hcs : cs ++ rest = cs.takeWhile p ++ (cs.dropWhile p ++ rest) := by
        rw [← List.append_assoc, List.takeWhile_append_dropWhile]
      rw [List.cons_append, hcs]
      exact List.drop_left
    have hne : cs.dropWhile p ≠ [] := by
      intro hnil
      have hp := List.dropWhile_eq_nil_iff.1 hnil d hd
      simp only [isGap, Bool.or_eq_false_iff, decide_eq_false_iff_not] at hgap
      simp [p, hother, hgap] at hp
    obtain ⟨e, es, hes⟩ := List.exists_cons_of_ne_nil hne
    have he : isLineEnd e = false := by
      have hmem : e ∈ cs := (List.dropWhile_suffix p).subset (by rw [hes]; exact List.mem_cons_self)
      exact (h.inside e (List.mem_cons_of_mem _ hmem)).1
    have hnone : afterLineEnd? (e :: es ++ rest) = none := by
      simp only [isLineEnd, Bool.or_eq_false_iff, decide_eq_false_iff_not] at he
      simp [afterLineEnd?, he]
    rw [hes] at hdrop
    rw [List.cons_append] at htake hdrop ⊢
    simp only [Markdown.afterRule?, decide_true, Bool.true_or, if_true]
    rw [htake, hdrop, hnone]
    split <;> rfl
  · simp [Markdown.afterRule?, hstar, hdash, hlow]

theorem IsTextLine.fence? : fence? (line ++ rest) = none := by
  obtain ⟨c, cs, rfl, hc⟩ := h.first
  by_cases hmark : c = '\x60' ∨ c = '~'
  · have hfeed : decide ('\n' = c) = false := by rcases hmark with rfl | rfl <;> rfl
    have hlength : runLength c (c :: (cs ++ rest)) = runLength c cs + 1 := by
      rw [runLength_cons_of_eq rfl, runLength, hrest.takeWhile_append hfeed, runLength]
    have hshort : ¬ 3 ≤ runLength c (c :: (cs ++ rest)) := by
      have := hc.fence hmark
      omega
    rw [List.cons_append, Markdown.fence?]
    simp [hshort]
  · rw [not_or] at hmark
    simp [Markdown.fence?, hmark]

/-- What is no asterisk begins no item. -/
theorem IsTextLine.read? (hstar : line.head? ≠ some '*') : Marker.read? (line ++ rest) = none := by
  obtain ⟨c, cs, rfl, hc⟩ := h.first
  have hne : c ≠ '*' := by simpa using hstar
  refine read?_append hc.first hne (hc.marker hne) fun d hd => ?_
  rcases hrest with rfl | ⟨below, rfl⟩
  · cases hd
  · cases hd
    rfl

theorem IsTextLine.itemInterrupts (inside inTable : Bool) : itemInterrupts inside inTable (line ++ rest) = false := by
  by_cases hstar : line.head? = some '*'
  · obtain ⟨d, cs, rfl, hgap, hend⟩ := h.exists_behind_star hstar
    obtain ⟨hspace, htab⟩ := ne_blank_of_isGap hgap
    simp only [isLineEnd, Bool.or_eq_false_iff, decide_eq_false_iff_not] at hend
    simp [Markdown.itemInterrupts, Marker.read?, hspace, htab, Markdown.atLineEnd, afterLineEnd?, hend]
  · rw [Markdown.itemInterrupts, h.read? hrest hstar]

theorem IsTextLine.overMarker? (outer : Nat) (taken : List Char) (column : Nat) :
    Cursor.overMarker? outer ⟨line ++ rest, taken, column, 0⟩ = none := by
  by_cases hstar : line.head? = some '*'
  · have hrule := h.afterRule? hrest
    obtain ⟨d, cs, rfl, hgap, hend⟩ := h.exists_behind_star hstar
    have hskip := skip_of_not_isGap hgap (cs ++ rest) ('*' :: taken) (column + 1) (n := 1) (by omega)
    simp only [isLineEnd, Bool.or_eq_false_iff, decide_eq_false_iff_not] at hend
    rw [List.cons_append, List.cons_append] at hrule ⊢
    simp [Cursor.overMarker?, Marker.read?, Marker.isBullet, hrule, Cursor.step, hskip, Markdown.atLineEnd,
      afterLineEnd?, hend]
  · rw [Cursor.overMarker?]
    simp only [h.read? hrest hstar]

/-- A line of text does not end the paragraph above it. -/
theorem IsTextLine.interrupts (containers : List Container) (inside : Bool) :
    interrupts containers inside (line ++ rest) = false := by
  have hitem := h.itemInterrupts hrest inside false
  have hnone := h.atLineEnd rest
  have hrule := h.afterRule? hrest
  have hheading := h.headingLevel? rest
  have hfence := h.fence? hrest
  obtain ⟨c, cs, rfl, hc⟩ := h.exists_cons
  have hquote : c ≠ '>' := ne_of_startsBlock hc (by decide)
  have hangle : c ≠ '<' := ne_of_startsBlock hc (by decide)
  have hbar : c ≠ '|' := ne_of_startsBlock hc (by decide)
  rw [List.cons_append] at hitem hnone hrule hheading hfence ⊢
  simp [Markdown.interrupts, interruptsText, hitem, hnone, hrule, hheading, hfence, hquote, hangle, hbar]

end

-- ---------------------------------------------------------------------------
-- Definitions
-- ---------------------------------------------------------------------------

/-- What stands behind a label that ends on its line is no colon. -/
theorem head?_ne_of_readLabelBody? {continues : List Char → Option (List Char)} {cs rest : List Char}
    (h : mayDefine cs = false) (hcs : ∀ c ∈ cs, isLineEnd c = false) (hrest : rest.head? ≠ some ':') {fuel : Nat}
    {read label behind : List Char}
    (hread : Target.readLabelBody? continues fuel read (cs ++ rest) = some (label, behind)) :
    behind.head? ≠ some ':' := by
  fun_induction mayDefine cs generalizing fuel read with
  | case1 => cases h
  | case2 d cs ih =>
    cases fuel with
    | zero => cases hread
    | succ fuel =>
      have hlater : Target.readLabelBody? continues fuel (d :: '\\' :: read) (cs ++ rest) = some (label, behind) := by
        simpa [Target.readLabelBody?, isLineEnd] using hread
      exact ih h (fun c hc => hcs c (List.mem_cons_of_mem _ (List.mem_cons_of_mem _ hc))) hlater
  | case3 cs =>
    cases fuel with
    | zero => cases hread
    | succ fuel => simp [Target.readLabelBody?] at hread
  | case4 cs hslash hopen =>
    cases fuel with
    | zero => cases hread
    | succ fuel =>
      have hbehind : cs ++ rest = behind := by
        simp [Target.readLabelBody?] at hread
        exact hread.2
      rw [← hbehind, List.head?_append]
      cases cs with
      | nil => exact hrest
      | cons d cs => simpa using h
  | case5 c cs hslash hopen hclose ih =>
    cases fuel with
    | zero => cases hread
    | succ fuel =>
      have hend := hcs c List.mem_cons_self
      have hescape := ne_slash_of_mayDefine hslash h
      have hlater : Target.readLabelBody? continues fuel (c :: read) (cs ++ rest) = some (label, behind) := by
        simpa [Target.readLabelBody?, hopen, hclose, hend, hescape] using hread
      exact ih h (fun d hd => hcs d (List.mem_cons_of_mem _ hd)) hlater

theorem IsTextLine.readDefinition? {line rest : List Char} (h : IsTextLine line) (hrest : AtEnd rest)
    (containers : List Container) : readDefinition? containers (line ++ rest) = none := by
  obtain ⟨c, cs, rfl, hc⟩ := h.first
  by_cases hopen : c = '['
  · subst hopen
    have hinside : ∀ d ∈ cs, isLineEnd d = false := fun d hd => (h.inside d (List.mem_cons_of_mem _ hd)).1
    rw [Markdown.readDefinition?]
    split
    · rename_i key behind hlabel
      exfalso
      rw [List.cons_append, Target.readLabel?] at hlabel
      split at hlabel
      · rename_i label after hread
        have hcolon := head?_ne_of_readLabelBody? (hc.bracket rfl) hinside (hrest.head?_ne (by decide)) hread
        split_ifs at hlabel
        cases hlabel
        exact hcolon rfl
      · cases hlabel
    · rfl
  · simp [Markdown.readDefinition?, Target.readLabel?, hopen]

end Literate.Markdown
