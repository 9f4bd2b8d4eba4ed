import Literate.Proofs.Markdown.HeadingLine
import Literate.Proofs.Markdown.OpenBlocks
import Literate.Proofs.Markdown.EventStream

/-!
# Leaf blocks as they are written

A block that is no container is read where a line begins with it, and all of it is read at once. What is
said here of each kind holds in any containers, of the lines as they are laid out in these, up to the end of
the block (`ReadAsLeaf`). The part that is read is not compared with anything: it has to tell of the block
that the lines were written for (`Part.Tells`), in a paragraph or bare as in the items of a tight list.

Main results: `readAsLeaf_paragraph`, `readAsLeaf_plain`, `readAsLeaf_heading`, `readAsLeaf_code` and
`readAsLeaf_rule`.
-/

namespace Literate.Markdown

-- ---------------------------------------------------------------------------
-- Lines in containers
-- ---------------------------------------------------------------------------

/-- Lines that stand below each other in containers, from behind what stands in front of the first up to where
the last ends. -/
def laidOut (containers : List Container) : List (List Char) → List Char
  | [] => []
  | line :: lines => line ++ beneath (lines.map (nestedLine containers))

/-- What a part tells is the block, whatever is defined elsewhere. -/
def Part.Tells (bare : Bool) (part : Part) (block : Block) : Prop :=
  ∀ definitions, Block.Told block (part.events definitions bare)

/-- Lines that are read, in any containers, as one block that is no container. -/
def ReadAsLeaf (bare : Bool) (block : Block) (lines : List (List Char)) : Prop :=
  ∀ (b : Builder) (lineEnd tail : List Char), EndsLine lineEnd tail → Ends b.containers tail →
    ∃ part, BeginsLeaf (laidOut b.containers lines ++ (lineEnd ++ tail)) ∧
      b.readUnindented 0 0 (laidOut b.containers lines ++ (lineEnd ++ tail)) = (b.add part, tail) ∧
      part.Tells bare block

-- ---------------------------------------------------------------------------
-- Paragraphs
-- ---------------------------------------------------------------------------

theorem splitBars_text {cs : List Char} (h : '|' ∉ cs) (escaped : Bool) : splitBars escaped cs = [cs] := by
  induction cs generalizing escaped with
  | nil => rfl
  | cons c cs ih =>
    have hc : c ≠ '|' := fun hc => h (hc ▸ List.mem_cons_self ..)
    have hrest := ih (fun hmem => h (List.mem_cons_of_mem c hmem)) (c = '\\')
    simp [splitBars, hc, hrest]

section

variable {line : List Char} (h : IsTextLine line)
include h

/-- A line of text is no head of a table. -/
theorem IsTextLine.opensTable? {rest : List Char} (hrest : AtEnd rest) (containers : List Container) :
    opensTable? containers (line ++ rest) = none := by
  have hbar : '|' ∉ line := fun hmem => (h.inside _ hmem).2 rfl
  have hhead : headColumns? (line ++ rest) = none := by
    simp [headColumns?, h.takeWhile_append hrest, splitBars_text hbar]
  rw [Markdown.opensTable?, hhead]

theorem IsTextLine.beginsText : BeginsText line := by
  obtain ⟨c, cs, rfl, hc⟩ := h.exists_cons
  exact ⟨c, cs, rfl, isGap_of_not_startsBlock hc, (h.inside c (List.mem_cons_self ..)).1⟩

theorem IsTextLine.beginsLeaf {rest : List Char} (hrest : AtEnd rest) : BeginsLeaf (line ++ rest) := by
  have hbegins := h.beginsText.append rest
  have hno_item := h.overMarker? hrest
  obtain ⟨c, cs, rfl, hc⟩ := h.exists_cons
  have hquote : c ≠ '>' := ne_of_startsBlock hc (by decide)
  have hplus : c ≠ '+' := ne_of_startsBlock hc (by decide)
  exact ⟨hbegins, by simpa using hquote, by simpa using hplus, hno_item⟩

/-- Text is read as text. -/
theorem IsTextLine.readUnindented {rest : List Char} (hrest : AtEnd rest) (b : Builder) :
    b.readUnindented 0 0 (line ++ rest) = b.readText (line ++ rest) := by
  have hrule := h.afterRule? hrest
  have hlevel := h.headingLevel? rest
  have hfence := h.fence? hrest
  have hdefinition := h.readDefinition? hrest b.containers
  obtain ⟨c, cs, rfl, hc⟩ := h.exists_cons
  have hangle : c ≠ '<' := ne_of_startsBlock hc (by decide)
  rw [List.cons_append] at hrule hlevel hfence hdefinition ⊢
  simp [Builder.readUnindented, Builder.readHtmlBlock?, hangle, hrule, hlevel, hfence, hdefinition]

end

theorem map_nestedLine_text {lines : List (List Char)} (h : ∀ line ∈ lines, IsTextLine line)
    (containers : List Container) :
    lines.map (nestedLine containers) = lines.map (marksOf containers ++ ·) := by
  refine List.map_congr_left fun line hline => nestedLine_of_ne_nil ?_ containers
  obtain ⟨c, cs, rfl, -⟩ := (h line hline).exists_cons
  exact List.cons_ne_nil c cs

/-- Lines of text are read as a paragraph. -/
theorem readUnindented_paragraph (b : Builder) {first : TextLine} {lines : List TextLine}
    (h : ∀ line ∈ first :: lines, line.Fair) {lineEnd tail : List Char} (hend : EndsLine lineEnd tail)
    (htail : Ends b.containers tail) :
    ∃ tokens, BeginsLeaf (laidOut b.containers (writtenLines (first :: lines)) ++ (lineEnd ++ tail)) ∧
      b.readUnindented 0 0 (laidOut b.containers (writtenLines (first :: lines)) ++ (lineEnd ++ tail)) =
        (b.add (.paragraph tokens), tail) ∧
      Spells false false false tokens [] (contentOf (first :: lines)) := by
  have htext := isTextLine_of_mem_writtenLines h
  obtain ⟨line, others, hwritten⟩ := List.exists_cons_of_ne_nil (writtenLines_ne_nil first lines)
  rw [hwritten] at htext
  have hline := htext line (List.mem_cons_self ..)
  have hothers : ∀ other ∈ others, IsTextLine other := fun other hother =>
    htext other (List.mem_cons_of_mem line hother)
  -- The first line opens the paragraph; the others go on with it behind the marks of the containers.
  let below := beneath (others.map (marksOf b.containers ++ ·)) ++ (lineEnd ++ tail)
  have hlaid : laidOut b.containers (writtenLines (first :: lines)) ++ (lineEnd ++ tail) = line ++ below := by
    rw [hwritten, laidOut, map_nestedLine_text hothers, List.append_assoc]
  have hfuel : others.length < (line ++ below).length + 1 := by
    have hlength := length_le_beneath (others.map (marksOf b.containers ++ ·))
    rw [List.length_map] at hlength
    simp only [below, List.length_append]
    omega
  obtain ⟨written, hread, htexts, hends⟩ := readLines_text (enters_marks b.containers) (stops_of_ends htail) hend hline
    others hothers [] _ hfuel
  have hbelow : AtEnd below := hend.atEnd.beneath _
  have hspells := tokensOfLines_spells h (htexts.trans hwritten.symm) hends
  refine ⟨_, ?_, ?_, hspells .none⟩
  · rw [hlaid]
    exact hline.beginsLeaf hbelow
  · rw [hlaid, hline.readUnindented hbelow, Builder.readText, hline.opensTable? hbelow]
    simp only [below, hread]

theorem contentOf_ne_nil {line : TextLine} (h : line.Fair) (lines : List TextLine) :
    contentOf (line :: lines) ≠ [] := by
  have hne : line.inlines ≠ [] := by
    intro hnil
    obtain ⟨c, cs, hcs, -⟩ := h.first
    rw [hnil] at hcs
    cases hcs
  cases lines <;> simp [contentOf, hne]

theorem readAsLeaf_paragraph {line : TextLine} {lines : List TextLine}
    (h : ∀ other ∈ line :: lines, other.Fair) :
    ReadAsLeaf false (.paragraph (contentOf (line :: lines))) (writtenLines (line :: lines)) := by
  intro b lineEnd tail hend htail
  obtain ⟨tokens, hbegins, hread, hspells⟩ := readUnindented_paragraph b h hend htail
  exact ⟨_, hbegins, hread, fun definitions => .paragraph (hspells.told definitions)⟩

/-- Text in a tight list stands in no paragraph. -/
theorem readAsLeaf_plain {line : TextLine} {lines : List TextLine}
    (h : ∀ other ∈ line :: lines, other.Fair) :
    ReadAsLeaf true (.plain (contentOf (line :: lines))) (writtenLines (line :: lines)) := by
  intro b lineEnd tail hend htail
  obtain ⟨tokens, hbegins, hread, hspells⟩ := readUnindented_paragraph b h hend htail
  have hne := contentOf_ne_nil (h line (List.mem_cons_self ..)) lines
  exact ⟨_, hbegins, hread, fun definitions => .plain hne (hspells.told definitions)⟩

-- ---------------------------------------------------------------------------
-- Headings
-- ---------------------------------------------------------------------------

/-- The line of a heading. -/
def headingLine (level : UInt8) (attr : Attr) (inlines : List Inline) : List Char :=
  List.replicate level.toNat '#' ++ ' ' :: (spelling inlines ++ groupBehind attr)

theorem headingLevel?_written {level : Nat} (hpos : 1 ≤ level) (hle : level ≤ 6) (rest : List Char) :
    headingLevel? (List.replicate level '#' ++ ' ' :: rest) = some level := by
  have hrun : runLength '#' (List.replicate level '#' ++ ' ' :: rest) = level := by
    rw [runLength, List.takeWhile_append_of_pos (by simp)]
    simp
  have hdrop : (List.replicate level '#' ++ ' ' :: rest).drop level = ' ' :: rest :=
    List.drop_left' (List.length_replicate ..)
  simp [headingLevel?, hrun, hdrop, hpos, hle, isSpace, isGap]

/-- A run of backticks or of number signs begins no HTML and no rule, and what it begins is no container. -/
theorem run_begins_leaf (b : Builder) {c : Char} (hc : c = '\x60' ∨ c = '#') {size : Nat} (hsize : 1 ≤ size)
    (rest : List Char) :
    b.readHtmlBlock? 0 (List.replicate size c ++ rest) = none ∧
      afterRule? (List.replicate size c ++ rest) = none ∧ BeginsLeaf (List.replicate size c ++ rest) := by
  obtain ⟨n, rfl⟩ : ∃ n, size = n + 1 := ⟨size - 1, by omega⟩
  rw [List.replicate_succ, List.cons_append]
  rcases hc with rfl | rfl <;>
    exact ⟨rfl, rfl, ⟨_, _, rfl, rfl, rfl⟩, by simp, by simp, overMarker?_of_read? (by simp [Marker.read?])⟩

theorem readAsLeaf_heading (bare : Bool) {level : UInt8} (hpos : 1 ≤ level.toNat)
    (hle : level.toNat ≤ 6) {line : TextLine} (h : line.Fair)
    (hsign : (spelling line.inlines).getLast? ≠ some '#') (hbrace : (spelling line.inlines).getLast? ≠ some '\x7d')
    {attr : Attr} (hattr : HasNames attr) :
    ReadAsLeaf bare (.heading level attr line.inlines) [headingLine level attr line.inlines] := by
  intro b lineEnd tail hend _
  have hlaid : laidOut b.containers [headingLine level attr line.inlines] ++ (lineEnd ++ tail) =
      List.replicate level.toNat '#' ++
        ' ' :: (spelling line.inlines ++ groupBehind attr ++ (lineEnd ++ tail)) := by
    simp [laidOut, headingLine, beneath]
  obtain ⟨tokens, hread, hspells⟩ := readHeading_written h hsign hbrace hattr hend
  obtain ⟨hhtml, hrule, hbegins⟩ := run_begins_leaf b (.inr rfl) hpos
    (' ' :: (spelling line.inlines ++ groupBehind attr ++ (lineEnd ++ tail)))
  refine ⟨.heading level.toNat attr tokens, hlaid ▸ hbegins, ?_, ?_⟩
  · have hlevel := headingLevel?_written hpos hle
      (spelling line.inlines ++ groupBehind attr ++ (lineEnd ++ tail))
    have hdrop : (List.replicate level.toNat '#' ++
        ' ' :: (spelling line.inlines ++ groupBehind attr ++ (lineEnd ++ tail))).drop level.toNat =
        ' ' :: (spelling line.inlines ++ groupBehind attr ++ (lineEnd ++ tail)) :=
      List.drop_left' (List.length_replicate ..)
    rw [hlaid, Builder.readUnindented, Nat.max_self, hhtml, hrule]
    simp only [hlevel, hdrop, hread]
  · intro definitions
    rw [Part.events, UInt8.ofNat_toNat]
    exact .heading level attr (hspells.told definitions)

-- ---------------------------------------------------------------------------
-- Code
-- ---------------------------------------------------------------------------

/-- Attributes that the fence of a block of code can have behind it. -/
structure IsInfo (attr : Attr) : Prop where
  readable : attr.Readable
  chars : ∀ c ∈ attr.show.toList, c ≠ '\\' ∧ c ≠ '&' ∧ c ≠ '\x60' ∧ isLineEnd c = false

/-- What stands behind the fence of a block of code. -/
def infoText (attr : Attr) : List Char :=
  if attr.isEmpty then [] else attr.show.toList

theorem unescape_plain {cs : List Char} (h : ∀ c ∈ cs, c ≠ '\\' ∧ c ≠ '&' ∧ isLineEnd c = false)
    (fuel : Nat) (hfuel : cs.length ≤ fuel) : Target.unescape false fuel cs = cs := by
  induction cs generalizing fuel with
  | nil => cases fuel <;> rfl
  | cons c cs ih =>
    obtain ⟨fuel, rfl⟩ : ∃ n, fuel = n + 1 := ⟨fuel - 1, by simp at hfuel; omega⟩
    obtain ⟨⟨hslash, hand, hend⟩, hcs⟩ := List.forall_mem_cons.1 h
    have hreturn : c ≠ '\r' := by
      rintro rfl
      cases hend
    have hrest := ih hcs fuel (by simpa using hfuel)
    rw [Target.unescape]
    · rw [if_neg hreturn, hrest]
    · rintro d ds heq
      exact fun _ => hslash heq
    · exact hand

theorem ofInfo_infoText {attr : Attr} (h : attr.Readable) :
    Attr.ofInfo (String.ofList (infoText attr)) = attr := by
  cases hempty : attr.isEmpty with
  | true =>
    rw [infoText, if_pos hempty, Attr.eq_empty_of_isEmpty hempty]
    decide
  | false =>
    have hne : attr.show.toList.isEmpty = false := by rw [Attr.toList_show]; rfl
    have hparse : Attr.parseChars? attr.show.toList = some attr := by
      have hread := (Attr.parse?_show_eq_some attr).2 h.readItems
      exact hread
    rw [infoText, hempty, if_neg Bool.false_ne_true, Attr.ofInfo, String.toList_ofList,
      Attr.trimBlanks_show]
    simp [hne, hparse]

section

variable {attr : Attr} (h : IsInfo attr)
include h

theorem IsInfo.of_mem_infoText : ∀ c ∈ infoText attr,
    c ≠ '\\' ∧ c ≠ '&' ∧ c ≠ '\x60' ∧ isLineEnd c = false := by
  intro c hc
  unfold infoText at hc
  split at hc
  · cases hc
  · exact h.chars c hc

theorem IsInfo.unescaped : Target.unescaped false (infoText attr) = infoText attr := by
  refine unescape_plain (fun c hc => ?_) _ (Nat.le_refl _)
  obtain ⟨hslash, hand, -, hend⟩ := h.of_mem_infoText c hc
  exact ⟨hslash, hand, hend⟩

theorem IsInfo.feed_notMem : '\n' ∉ infoText attr := by
  intro hmem
  obtain ⟨-, -, -, hend⟩ := h.of_mem_infoText _ hmem
  cases hend

theorem IsInfo.fence? {size : Nat} (hsize : 3 ≤ size) (rest : List Char) :
    fence? (List.replicate size '\x60' ++ (infoText attr ++ '\n' :: rest)) = some ('\x60', size) := by
  have htick : '\x60' ∉ infoText attr ++ ['\n'] := by
    intro hmem
    rcases List.mem_append.1 hmem with hmem | hmem
    · exact (h.of_mem_infoText _ hmem).2.2.1 rfl
    · cases hmem
      contradiction
  have hhead : (infoText attr ++ '\n' :: rest).head? ≠ some '\x60' := by
    rw [List.append_cons, List.head?_append_of_ne_nil _ (by simp)]
    exact fun hfirst => htick (List.mem_of_mem_head? hfirst)
  have hrun := runLength_replicate_append size hhead
  have hdrop : (List.replicate size '\x60' ++ (infoText attr ++ '\n' :: rest)).drop size =
      infoText attr ++ '\n' :: rest := List.drop_left' (List.length_replicate ..)
  have hsplit := splitLine_append h.feed_notMem rest
  obtain ⟨n, rfl⟩ : ∃ n, size = n + 1 := ⟨size - 1, by omega⟩
  rw [List.replicate_succ, List.cons_append] at hrun hdrop ⊢
  simp [Markdown.fence?, hrun, hdrop, hsplit, hsize, htick]

end

theorem dropWhile_isGap_infoText (attr : Attr) (rest : List Char) :
    (infoText attr ++ '\n' :: rest).dropWhile isGap = infoText attr ++ '\n' :: rest := by
  unfold infoText
  split
  · rfl
  · rw [Attr.toList_show]
    rfl

theorem dropEndWhile_isSpace_infoText (attr : Attr) :
    Text.dropEndWhile isSpace (infoText attr ++ ['\n']) = infoText attr := by
  refine Text.dropEndWhile_append ['\n'] ?_ (by simp [isSpace])
  intro c hc
  unfold infoText at hc
  split at hc
  · cases hc
  · rw [Attr.toList_show, ← List.cons_append, List.getLast?_concat] at hc
    cases hc
    rfl

/-- The fence of a block of code is longer than any run of backticks in the code. -/
def fenceSize (lines : List (List Char)) : Nat :=
  max (Text.longestRun '\x60' (feeds lines) + 1) 3

theorem fenceSize_ne_zero (lines : List (List Char)) : fenceSize lines ≠ 0 := by
  have hthree : 3 ≤ fenceSize lines := Nat.le_max_right ..
  omega

/-- The lines of a block of code with its fences. -/
def fencedLines (attr : Attr) (lines : List (List Char)) : List (List Char) :=
  (List.replicate (fenceSize lines) '\x60' ++ infoText attr) ::
    (lines ++ [List.replicate (fenceSize lines) '\x60'])

/-- A fence with its info string and a text tell the block of code. -/
theorem IsInfo.tells {attr : Attr} (h : IsInfo attr) (bare : Bool) {lines : List (List Char)}
    (hne : lines ≠ []) :
    Part.Tells bare (.code (some (String.ofList (infoText attr))) (String.ofList (feeds lines)))
      (.codeBlock attr (String.ofList (feeds lines))) := by
  intro definitions
  obtain ⟨line, others, rfl⟩ := List.exists_cons_of_ne_nil hne
  have hsome : (String.ofList (feeds (line :: others))).isEmpty = false := by
    rw [feeds_cons]
    simp
  have htold := Block.Told.codeBlock (some (String.ofList (infoText attr)))
    [String.ofList (feeds (line :: others))]
  simp only [Option.map_some, Option.getD_some, ofInfo_infoText h.readable] at htold
  rw [Part.events, hsome]
  simpa using htold

theorem readAsLeaf_code (bare : Bool) {attr : Attr} (hattr : IsInfo attr) {lines : List (List Char)}
    (hne : lines ≠ []) (hlines : ∀ line ∈ lines, IsLiteral line) :
    ReadAsLeaf bare (.codeBlock attr (String.ofList (feeds lines))) (fencedLines attr lines) := by
  intro b lineEnd tail hend _
  have hthree : 3 ≤ fenceSize lines := Nat.le_max_right ..
  have hlonger : Text.longestRun '\x60' (feeds lines) < fenceSize lines :=
    Nat.lt_of_lt_of_le (Nat.lt_succ_self _) (Nat.le_max_left ..)
  unfold fencedLines
  -- Of the size of the fence only these two facts are used.
  generalize fenceSize lines = size at hthree hlonger
  let below := feeds (lines.map (nestedLine b.containers)) ++
    (nestedLine b.containers (List.replicate size '\x60') ++ (lineEnd ++ tail))
  have hlaid : laidOut b.containers ((List.replicate size '\x60' ++ infoText attr) ::
      (lines ++ [List.replicate size '\x60'])) ++ (lineEnd ++ tail) =
      List.replicate size '\x60' ++ (infoText attr ++ '\n' :: below) := by
    simp [laidOut, below, beneath_concat]
  have hpos : 1 ≤ size := Nat.le_trans (by decide) hthree
  obtain ⟨hhtml, hrule, hbegins⟩ := run_begins_leaf b (.inl rfl) hpos (infoText attr ++ '\n' :: below)
  have hlevel : headingLevel? (List.replicate size '\x60' ++ (infoText attr ++ '\n' :: below)) = none := by
    obtain ⟨n, rfl⟩ : ∃ n, size = n + 1 := ⟨size - 1, by omega⟩
    rfl
  refine ⟨_, hlaid ▸ hbegins, ?_, hattr.tells bare hne⟩
  have hfence := hattr.fence? hthree below
  have hdrop : (List.replicate size '\x60' ++ (infoText attr ++ '\n' :: below)).drop size =
      infoText attr ++ '\n' :: below := List.drop_left' (List.length_replicate ..)
  have hfuel : lines.length < below.length + 1 := by
    have hlength := length_le_feeds (lines.map (nestedLine b.containers))
    rw [List.length_map] at hlength
    simp only [below, List.length_append]
    omega
  have hcode := readFencedCode_written (carries_nested b.containers) hlines hlonger _ hfuel hend
  rw [hlaid, Builder.readUnindented, Nat.max_self, hhtml, hrule, hlevel]
  simp only [hfence, hdrop, dropWhile_isGap_infoText, splitLine_append hattr.feed_notMem,
    dropEndWhile_isSpace_infoText, hattr.unescaped]
  rw [hcode]

-- ---------------------------------------------------------------------------
-- Rules
-- ---------------------------------------------------------------------------

theorem readAsLeaf_rule (bare : Bool) : ReadAsLeaf bare .rule ["---".toList] := by
  intro b lineEnd tail hend _
  have hrule : afterRule? ('-' :: '-' :: '-' :: (lineEnd ++ tail)) = some tail := by
    cases hend <;> simp [afterRule?, afterLineEnd?]
  have hbullet : ∀ marker rest, Marker.read? ('-' :: '-' :: '-' :: (lineEnd ++ tail)) = some (marker, rest) →
      marker.isBullet = true := by
    rintro marker rest ⟨⟩
    rfl
  refine ⟨.rule, ⟨⟨_, _, rfl, rfl, rfl⟩, by simp [laidOut], by simp [laidOut], overMarker?_rule hrule hbullet⟩, ?_,
    fun _ => .rule⟩
  show b.readUnindented 0 0 ('-' :: '-' :: '-' :: (lineEnd ++ tail)) = _
  simp [Builder.readUnindented, Builder.readHtmlBlock?, hrule]

end Literate.Markdown
