import Literate.Markdown.Line
import Literate.Proofs.Text.Lines

/-!
# From one line end to another

A line of a text, taken with the line feeds in front of it and behind it, is a word of the text, and a word
of plus signs and blanks (`LineWord`) is broken by anything else. So if a text is put together of others and
of punctuation, such a word is all in one of them (`LineWord.infix_append_cons_iff`), and what has no line
end adds none (`LineWord.infix_append_left_iff`, `LineWord.infix_append_right_iff`). Lines that are put below
each other do not make one either if each of them has something else in front of its first line end and
behind its last (`Anchored`).

Main results:

* `infix_feed_cons_iff`: the lines of a text are the words between its line feeds.
* `LineWord.infix_feeds_iff`: a word in some lines is in one of them.
-/

namespace Literate.Text

open Markdown (isGap isLineEnd)

variable {w cs ds line : List Char} {m : Char}

-- ---------------------------------------------------------------------------
-- Words
-- ---------------------------------------------------------------------------

/-- What a word must miss on one side of a character that it has not. -/
theorem infix_append_cons_iff (h : m ∉ w) : w <:+: cs ++ m :: ds ↔ w <:+: cs ∨ w <:+: ds := by
  constructor
  · rintro ⟨before, after, heq⟩
    rcases List.append_eq_append_iff.mp heq with ⟨rest, rfl, -⟩ | ⟨rest, hfront, hback⟩
    · exact .inl (List.infix_append before w rest)
    · rcases rest with _ | ⟨c, rest⟩
      · rw [List.append_nil] at hfront
        exact .inl ⟨before, [], by rw [List.append_nil, hfront]⟩
      · obtain ⟨rfl, rfl⟩ := List.cons.inj hback
        rcases List.append_eq_append_iff.mp hfront with ⟨inner, -, rfl⟩ | ⟨inner, -, hword⟩
        · exact absurd (List.mem_append_right inner List.mem_cons_self) h
        · rcases inner with _ | ⟨c, inner⟩
          · rw [List.nil_append] at hword
            exact absurd (hword ▸ List.mem_cons_self) h
          · obtain ⟨-, rfl⟩ := List.cons.inj hword
            exact .inr (List.infix_append inner w after)
  · rintro (hcs | hds)
    · exact hcs.trans (List.prefix_append ..).isInfix
    · exact hds.trans ((List.suffix_cons m ds).trans (List.suffix_append ..)).isInfix

/-- A line of a text but the last is a word between two line feeds, once one stands in front of the text. -/
theorem infix_feed_cons_iff (h : '\n' ∉ line) :
    '\n' :: (line ++ ['\n']) <:+: '\n' :: cs ↔ line ∈ (splitFeeds cs).dropLast := by
  have hfirst : splitFeeds ('\n' :: cs) = [] :: splitFeeds cs := splitFeeds_append_feed [] cs
  constructor
  · rintro ⟨before, after, heq⟩
    have hpieces := congrArg splitFeeds heq
    rw [show before ++ '\n' :: (line ++ ['\n']) ++ after = before ++ '\n' :: (line ++ '\n' :: after) by simp,
      splitFeeds_append_feed, splitFeeds_append_feed, splitFeeds_of_notMem h, hfirst] at hpieces
    obtain ⟨first, front, hfront⟩ := List.exists_cons_of_ne_nil (splitFeeds_ne_nil before)
    rw [hfront, List.cons_append, List.cons.injEq] at hpieces
    rw [← hpieces.2, ← List.append_assoc, List.dropLast_append_of_ne_nil (splitFeeds_ne_nil after)]
    simp
  · intro hline
    obtain ⟨front, back, hcut⟩ := List.append_of_mem hline
    obtain ⟨last, hlast⟩ : ∃ last, splitFeeds cs = front ++ line :: back ++ [last] :=
      ⟨_, by rw [← hcut, List.dropLast_append_getLast (splitFeeds_ne_nil cs)]⟩
    have hbehind : back ++ [last] ≠ [] := by simp
    have hback : ['\n'].intercalate (line :: (back ++ [last])) =
        line ++ '\n' :: ['\n'].intercalate (back ++ [last]) := by
      rw [List.intercalate_cons_of_ne_nil hbehind]
      simp
    rw [← intercalate_splitFeeds cs, hlast, List.append_assoc, List.cons_append]
    -- Behind the first line feed of all stands the first line, and there is no line in front of it.
    rcases eq_or_ne front [] with rfl | hne
    · rw [List.nil_append, hback]
      exact ⟨[], ['\n'].intercalate (back ++ [last]), by simp⟩
    · rw [intercalate_append hne (List.cons_ne_nil line _), hback]
      exact ⟨'\n' :: ['\n'].intercalate front, ['\n'].intercalate (back ++ [last]), by simp⟩

-- ---------------------------------------------------------------------------
-- Words of plus signs and blanks
-- ---------------------------------------------------------------------------

/-- A character that breaks a word of plus signs and blanks. -/
def isMark (c : Char) : Bool :=
  c ≠ '+' && !isBlank c

theorem isLineEnd_eq_false_iff {c : Char} : isLineEnd c = false ↔ c ≠ '\n' ∧ c ≠ '\r' := by
  simp [isLineEnd]

theorem isLineEnd_of_isMark {c : Char} (h : isMark c = true) : isLineEnd c = false := by
  rw [isLineEnd_eq_false_iff]
  constructor <;> rintro rfl <;> cases h

theorem isGap_of_isMark {c : Char} (h : isMark c = true) : isGap c = false := by
  simp only [isGap, Bool.or_eq_false_iff, decide_eq_false_iff_not, and_assoc]
  refine ⟨?_, ?_, ?_, ?_⟩ <;> rintro rfl <;> cases h

def OneLine (cs : List Char) : Prop :=
  ∀ c ∈ cs, isLineEnd c = false

instance (cs : List Char) : Decidable (OneLine cs) :=
  List.decidableBAll _ _

/-- A word of plus signs and blanks from one line end to another, and more than line feeds. -/
structure LineWord (w : List Char) : Prop where
  chars : ∀ c ∈ w, isMark c = false
  head : ∃ c ∈ w.head?, isLineEnd c = true
  last : ∃ c ∈ w.getLast?, isLineEnd c = true
  not_feeds : ∃ c ∈ w, c ≠ '\n'

theorem lineWord_return : LineWord ['\r'] :=
  ⟨List.forall_mem_singleton.mpr rfl, ⟨'\r', rfl, rfl⟩, ⟨'\r', rfl, rfl⟩, ⟨'\r', by decide⟩⟩

/-- Whether some characters stand in front of the first line end of a text, and behind the last, that
break a word. -/
structure Anchored (cs : List Char) : Prop where
  front : ∃ as m bs, cs = as ++ m :: bs ∧ isMark m = true ∧ OneLine as
  back : ∃ as m bs, cs = as ++ m :: bs ∧ isMark m = true ∧ OneLine bs

namespace OneLine

@[simp] theorem nil : OneLine [] :=
  List.forall_mem_nil _

@[simp] theorem cons_iff {c : Char} : OneLine (c :: cs) ↔ isLineEnd c = false ∧ OneLine cs :=
  List.forall_mem_cons

@[simp] theorem append_iff : OneLine (cs ++ ds) ↔ OneLine cs ∧ OneLine ds :=
  List.forall_mem_append

theorem append (h : OneLine cs) (h' : OneLine ds) : OneLine (cs ++ ds) :=
  append_iff.mpr ⟨h, h'⟩

theorem notMem (h : OneLine cs) : '\n' ∉ cs :=
  fun hmem => nomatch h '\n' hmem

/-- What stands on one line is anchored by any of its characters that breaks a word. -/
theorem anchored (h : OneLine cs) (hm : m ∈ cs) (hmark : isMark m = true) : Anchored cs := by
  obtain ⟨as, bs, rfl⟩ := List.append_of_mem hm
  obtain ⟨has, hbs⟩ := List.forall_mem_append.mp h
  exact ⟨⟨as, m, bs, rfl, hmark, has⟩, ⟨as, m, bs, rfl, hmark, (List.forall_mem_cons.mp hbs).2⟩⟩

end OneLine

namespace LineWord

variable (h : LineWord w)

include h

theorem reverse : LineWord w.reverse where
  chars := fun c hc => h.chars c (List.mem_reverse.mp hc)
  head := by
    rw [List.head?_reverse]
    exact h.last
  last := by
    rw [List.getLast?_reverse]
    exact h.head
  not_feeds := by
    obtain ⟨c, hc, hne⟩ := h.not_feeds
    exact ⟨c, List.mem_reverse.mpr hc, hne⟩

theorem infix_append_cons_iff (hm : isMark m = true) : w <:+: cs ++ m :: ds ↔ w <:+: cs ∨ w <:+: ds := by
  refine Text.infix_append_cons_iff fun hmem => ?_
  rw [h.chars m hmem] at hm
  cases hm

theorem infix_append_left_iff (hcs : OneLine cs) : w <:+: cs ++ ds ↔ w <:+: ds := by
  induction cs with
  | nil => rfl
  | cons c cs ih =>
    obtain ⟨hc, hcs⟩ := List.forall_mem_cons.mp hcs
    rw [List.cons_append, List.infix_cons_iff, ih hcs, or_iff_right_iff_imp]
    rintro ⟨rest, hword⟩
    obtain ⟨d, hd, hend⟩ := h.head
    obtain ⟨w, rfl⟩ := List.head?_eq_some_iff.mp (Option.mem_def.mp hd)
    rw [(List.cons.inj hword).1, hc] at hend
    cases hend

theorem infix_append_right_iff (hds : OneLine ds) : w <:+: cs ++ ds ↔ w <:+: cs := by
  rw [← List.reverse_infix, List.reverse_append,
    h.reverse.infix_append_left_iff fun c hc => hds c (List.mem_reverse.mp hc), List.reverse_infix]

theorem not_infix_oneLine (hcs : OneLine cs) : ¬ w <:+: cs := by
  intro hword
  obtain ⟨c, hc, hend⟩ := h.head
  rw [hcs c (hword.mem (List.mem_of_head? hc))] at hend
  cases hend

theorem not_infix_replicate (n : Nat) : ¬ w <:+: List.replicate n '\n' := by
  intro hword
  obtain ⟨c, hc, hne⟩ := h.not_feeds
  exact hne (List.eq_of_mem_replicate (hword.mem hc))

/-- A word in texts that are joined by a mark is in one of them. -/
theorem infix_intercalate_iff (hm : isMark m = true) {sep : List Char} (hsep : OneLine sep)
    (parts : List (List Char)) : w <:+: (m :: sep).intercalate parts ↔ ∃ part ∈ parts, w <:+: part := by
  induction parts with
  | nil => simp [h.not_infix_oneLine .nil]
  | cons part parts ih =>
    cases parts with
    | nil => simp
    | cons next parts =>
      rw [List.intercalate_cons_cons, List.append_assoc, List.cons_append, h.infix_append_cons_iff hm,
        h.infix_append_left_iff hsep, ih, List.exists_mem_cons_iff (l := next :: parts)]

/-- A word in a line, the line feeds in front of it, and the lines below it is in the line or below. -/
theorem infix_line_iff (hline : Anchored line) (n : Nat) :
    w <:+: List.replicate n '\n' ++ (line ++ '\n' :: ds) ↔ w <:+: line ∨ w <:+: '\n' :: ds := by
  have hfront : w <:+: List.replicate n '\n' ++ line ↔ w <:+: line := by
    obtain ⟨as, m, bs, rfl, hm, has⟩ := hline.front
    rw [← List.append_assoc, h.infix_append_cons_iff hm, h.infix_append_cons_iff hm,
      h.infix_append_right_iff has]
    simp [h.not_infix_replicate, h.not_infix_oneLine has]
  obtain ⟨as, m, bs, rfl, hm, hbs⟩ := hline.back
  rw [← hfront, List.append_assoc, List.cons_append, ← List.append_assoc, ← List.append_assoc,
    h.infix_append_cons_iff hm, h.infix_append_cons_iff hm, h.infix_append_left_iff hbs]
  simp [h.not_infix_oneLine hbs]

/-- A word in lines with their line feeds, and one in front, is in one of the lines. -/
theorem infix_feeds_iff {lines : List (List Char)} (hlines : ∀ line ∈ lines, line = [] ∨ Anchored line)
    (n : Nat) : w <:+: List.replicate n '\n' ++ lines.flatMap (· ++ ['\n']) ↔ ∃ line ∈ lines, w <:+: line := by
  induction lines generalizing n with
  | nil => simp [h.not_infix_replicate]
  | cons line lines ih =>
    obtain ⟨hline, hrest⟩ := List.forall_mem_cons.mp hlines
    rw [List.flatMap_cons, List.append_assoc, List.singleton_append, List.exists_mem_cons_iff]
    rcases hline with rfl | hline
    · rw [List.nil_append, ← List.singleton_append, ← List.append_assoc, ← List.replicate_succ', ih hrest]
      simp [h.not_infix_oneLine .nil]
    · rw [h.infix_line_iff hline]
      exact or_congr_right (ih hrest 1)

end LineWord

-- ---------------------------------------------------------------------------
-- Lines of plus signs
-- ---------------------------------------------------------------------------

/-- Whether a line is three plus signs and then only characters that count as blank. -/
def isPluses (blank : Char → Bool) : List Char → Bool
  | '+' :: '+' :: '+' :: tail => tail.all blank
  | _ => false

theorem isPluses_iff {blank : Char → Bool} :
    isPluses blank line = true ↔ ∃ tail, line = '+' :: '+' :: '+' :: tail ∧ ∀ c ∈ tail, blank c = true := by
  unfold isPluses
  split
  · simp
  · rename_i hnot
    simpa using fun tail heq => absurd heq (hnot tail)

theorem lineWord_pluses {blank : Char → Bool} (hblank : ∀ c, blank c = true → isBlank c = true)
    (h : isPluses blank line = true) : LineWord ('\n' :: (line ++ ['\n'])) := by
  obtain ⟨tail, rfl, htail⟩ := isPluses_iff.mp h
  refine ⟨?_, ⟨'\n', rfl, rfl⟩, ⟨'\n', ?_, rfl⟩, ⟨'+', by simp⟩⟩
  swap
  · rw [← List.cons_append, List.getLast?_concat]
    rfl
  have hmarks : ∀ c ∈ tail, isMark c = false := by
    intro c hc
    simp [isMark, hblank c (htail c hc)]
  simp only [List.forall_mem_cons, List.forall_mem_append, List.cons_append]
  exact ⟨rfl, rfl, rfl, rfl, hmarks, rfl, List.forall_mem_nil _⟩

end Literate.Text
