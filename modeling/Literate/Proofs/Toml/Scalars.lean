import Literate.Proofs.Text.LineWords
import Literate.Toml.Printer

/-!
# Strings, keys and numbers as text

Keys, numbers and dates are written on one line, and so is a string without a line feed. A string with line
feeds stands between three quotes, and its lines stay lines: between apostrophes all of them stay as they are
(`isRaw`), and between quotation marks a line stays as it is if none of its characters is escaped. No style
leaves a carriage return.

Main result: `infix_printString_iff`, which lines of plus signs and blanks a string is written with.
-/

namespace Literate.Toml

open Text (splitFeeds OneLine isMark isPluses)
open Markdown (isLineEnd)

variable {cs line : List Char}

-- ---------------------------------------------------------------------------
-- Escapes
-- ---------------------------------------------------------------------------

theorem escapeBasic_eq_or (c : Char) : escapeBasic c = [c] ∨ ∃ rest, escapeBasic c = '\\' :: rest := by
  unfold escapeBasic
  repeat' split
  all_goals simp

theorem oneLine_controlDigits {c : Char} (h : isControl c = true) : OneLine (controlDigits c) := by
  have hall : ∀ n < 128, (controlDigits (Char.ofNat n)).all (!isLineEnd ·) = true := by decide +kernel
  have hsmall : c.toNat < 128 := by
    simp only [isControl, Bool.or_eq_true, Bool.and_eq_true, decide_eq_true_eq] at h
    omega
  have hc := hall c.toNat hsmall
  rw [Char.ofNat_toNat] at hc
  simpa [OneLine] using hc

theorem oneLine_escapeBasic (c : Char) : OneLine (escapeBasic c) := by
  have hdigits := @oneLine_controlDigits c
  unfold escapeBasic
  repeat' split
  all_goals simp_all [OneLine, isLineEnd]

-- ---------------------------------------------------------------------------
-- Between three quotation marks
-- ---------------------------------------------------------------------------

theorem isLineEnd_of_mem_escapeMultiline {run : Nat} {c : Char} (h : c ∈ escapeMultiline run cs)
    (hend : isLineEnd c = true) : c = '\n' ∧ '\n' ∈ cs := by
  fun_induction escapeMultiline run cs with
  | case1 => cases h
  | case2 run cs ih =>
    rcases List.mem_cons.mp h with rfl | h
    · exact ⟨rfl, List.mem_cons_self⟩
    · exact ⟨(ih h).1, List.mem_cons_self⟩
  | case3 cs ih =>
    rcases List.mem_cons.mp h with rfl | h
    · cases hend
    · rcases List.mem_cons.mp h with rfl | h
      · cases hend
      · exact (ih h).imp_right (List.mem_cons_of_mem _)
  | case4 run cs _ ih =>
    rcases List.mem_cons.mp h with rfl | h
    · cases hend
    · exact (ih h).imp_right (List.mem_cons_of_mem _)
  | case5 run c' cs _ _ ih =>
    rcases List.mem_append.mp h with h | h
    · rw [oneLine_escapeBasic c' c h] at hend
      cases hend
    · exact (ih h).imp_right (List.mem_cons_of_mem _)

theorem escapeMultiline_append_feed (run : Nat) (cs ds : List Char) :
    escapeMultiline run (cs ++ '\n' :: ds) = escapeMultiline run cs ++ '\n' :: escapeMultiline 0 ds := by
  fun_induction escapeMultiline run cs with
  | case1 => rfl
  | case2 run cs ih => rw [List.cons_append, escapeMultiline, ih, List.cons_append]
  | case3 cs ih => rw [List.cons_append, escapeMultiline, if_pos rfl, ih, List.cons_append, List.cons_append]
  | case4 run cs hrun ih => rw [List.cons_append, escapeMultiline, if_neg hrun, ih, List.cons_append]
  | case5 run c cs hfeed hquote ih =>
    rw [List.cons_append, escapeMultiline, ih, List.append_assoc]
    · exact hfeed
    · exact hquote

/-- The lines of what is written are written one by one. -/
theorem splitFeeds_escapeMultiline (cs : List Char) :
    splitFeeds (escapeMultiline 0 cs) = (splitFeeds cs).map (escapeMultiline 0) := by
  have hjoin : ∀ pieces : List (List Char), escapeMultiline 0 (['\n'].intercalate pieces) =
      ['\n'].intercalate (pieces.map (escapeMultiline 0)) := by
    intro pieces
    induction pieces with
    | nil => rfl
    | cons piece pieces ih =>
      cases pieces with
      | nil => simp
      | cons next pieces =>
        rw [List.intercalate_cons_cons, List.append_assoc, List.singleton_append,
          escapeMultiline_append_feed, ih]
        simp
  have hfeeds : ∀ piece ∈ (splitFeeds cs).map (escapeMultiline 0), '\n' ∉ piece := by
    intro piece hpiece hmem
    obtain ⟨plain, hplain, rfl⟩ := List.mem_map.mp hpiece
    exact Text.notMem_of_mem_splitFeeds hplain (isLineEnd_of_mem_escapeMultiline hmem rfl).2
  have hpieces := Text.splitFeeds_intercalate (by simpa using Text.splitFeeds_ne_nil cs) hfeeds
  rwa [← hjoin, Text.intercalate_splitFeeds] at hpieces

/-- What has neither quotation marks nor backslashes is written for itself, and without escapes. -/
theorem escapeMultiline_eq_iff {run : Nat} (h : ∀ c ∈ line, c ≠ '"' ∧ c ≠ '\\' ∧ c ≠ '\n') :
    escapeMultiline run cs = line ↔ cs = line ∧ ∀ c ∈ line, escapeBasic c = [c] := by
  -- An escape begins with a backslash, which the line does not have, so the two are compared from the front.
  induction line generalizing run cs with
  | nil =>
    unfold escapeMultiline
    split
    · simp
    · simp
    · split <;> simp
    · rename_i c cs _ _
      rcases escapeBasic_eq_or c with hc | ⟨rest, hc⟩ <;> simp [hc]
  | cons d line ih =>
    obtain ⟨hd, hline⟩ := List.forall_mem_cons.mp h
    unfold escapeMultiline
    split
    · simp
    · simp [hd.2.2.symm]
    · split <;> simp [hd.1.symm, hd.2.1.symm]
    · rename_i c cs _ _
      rcases escapeBasic_eq_or c with hc | ⟨rest, hc⟩
      · rw [hc, List.singleton_append, List.cons.injEq, List.cons.injEq, ih hline, List.forall_mem_cons]
        constructor
        · rintro ⟨rfl, rfl, hkept⟩
          exact ⟨⟨rfl, rfl⟩, hc, hkept⟩
        · rintro ⟨⟨rfl, rfl⟩, -, hkept⟩
          exact ⟨rfl, rfl, hkept⟩
      · -- an escaped character is not written for itself
        refine iff_of_false ?_ ?_
        · simp [hc, hd.2.1.symm]
        · rintro ⟨heq, hkept⟩
          obtain ⟨rfl, -⟩ := List.cons.inj heq
          have hself := hkept c List.mem_cons_self
          rw [hc] at hself
          exact hd.2.1 (List.cons.inj hself).1.symm

-- ---------------------------------------------------------------------------
-- Strings
-- ---------------------------------------------------------------------------

/-- Whether a text of several lines is put between apostrophes. -/
def isRaw (cs : List Char) : Bool :=
  !cs.any isControl && (cs.contains '\\' || 2 < Text.longestRun '"' cs) && Text.longestRun '\'' cs ≤ 2

/-- Whether a character of a text of several lines is written as it is. -/
def keeps (cs : List Char) (c : Char) : Bool :=
  isRaw cs || escapeBasic c = [c]

theorem toList_printString_of_feed {s : String} (h : '\n' ∈ s.toList) : (printString s).toList =
    if isRaw s.toList then multiline '\'' s.toList s.toList
    else multiline '"' s.toList (escapeMultiline 0 s.toList) := by
  have hfeed : s.toList.contains '\n' = true := by simpa using h
  simp only [printString, String.toList_ofList, hfeed, isRaw]
  by_cases hcontrol : s.toList.any isControl = true
  · simp [hcontrol]
  · rw [Bool.not_eq_true] at hcontrol
    by_cases hbackslash : s.toList.contains '\\' = true
    · simp only [hcontrol, hbackslash]
      simp
    · rw [Bool.not_eq_true] at hbackslash
      by_cases hquotes : Text.longestRun '"' s.toList ≤ 2
      · simp only [hcontrol, hbackslash, hquotes, Nat.not_lt.mpr hquotes]
        simp
      · simp only [hcontrol, hbackslash, hquotes, Nat.lt_of_not_le hquotes]
        simp

theorem oneLine_basic (cs : List Char) : OneLine (basic cs) := by
  have hinside : OneLine (cs.flatMap escapeBasic) := by
    intro c hc
    obtain ⟨d, -, hd⟩ := List.mem_flatMap.mp hc
    exact oneLine_escapeBasic d c hd
  simp [basic, hinside, isLineEnd]

theorem return_notMem_of_no_control (h : cs.any isControl = false) : '\r' ∉ cs := by
  intro hmem
  have hreturn := List.any_eq_false.mp h '\r' hmem
  exact hreturn (by decide)

theorem oneLine_of_no_control (h : cs.any isControl = false) (hfeed : '\n' ∉ cs) : OneLine cs := by
  intro c hc
  rw [Text.isLineEnd_eq_false_iff]
  constructor
  · rintro rfl
    exact hfeed hc
  · rintro rfl
    exact return_notMem_of_no_control h hc

theorem oneLine_replicate {quote : Char} (h : isLineEnd quote = false) (n : Nat) :
    OneLine (List.replicate n quote) :=
  fun _ hc => List.eq_of_mem_replicate hc ▸ h

theorem oneLine_multiline {quote : Char} {body : List Char} (hquote : isLineEnd quote = false)
    (hfeed : cs.contains '\n' = false) (hbody : OneLine body) : OneLine (multiline quote cs body) := by
  have hquotes := oneLine_replicate hquote 3
  rw [multiline, hfeed]
  exact ((hquotes.append .nil).append hbody).append hquotes

theorem oneLine_printString {s : String} (h : '\n' ∉ s.toList) : OneLine (printString s).toList := by
  have hfeed : s.toList.contains '\n' = false := by simpa using h
  have hescaped : OneLine (escapeMultiline 0 s.toList) := by
    intro c hc
    by_contra hend
    exact h (isLineEnd_of_mem_escapeMultiline hc (by simpa using hend)).2
  have hplain : ∀ others : Bool, (!s.toList.any isControl && others) = true → OneLine s.toList := by
    intro others hall
    rw [Bool.and_eq_true, Bool.not_eq_true'] at hall
    exact oneLine_of_no_control hall.1 h
  simp only [printString, String.toList_ofList, Bool.and_assoc]
  split
  · exact oneLine_basic _
  · split
    · have hinside := hplain _ ‹_›
      simp [literal, hinside, isLineEnd]
    · split
      · exact oneLine_multiline rfl hfeed hescaped
      · split
        · exact oneLine_multiline rfl hfeed (hplain _ ‹_›)
        · rw [if_neg (by simp [h])]
          exact oneLine_basic _

theorem return_notMem_printString (s : String) : '\r' ∉ (printString s).toList := by
  intro hmem
  by_cases hfeed : '\n' ∈ s.toList
  · rw [toList_printString_of_feed hfeed] at hmem
    split at hmem
    · rename_i hraw
      have hcontrol : s.toList.any isControl = false := by
        simp only [isRaw, Bool.and_assoc, Bool.and_eq_true, Bool.not_eq_true'] at hraw
        exact hraw.1
      exact return_notMem_of_no_control hcontrol (by simpa [multiline, hfeed] using hmem)
    · have hinside : '\r' ∈ escapeMultiline 0 s.toList := by simpa [multiline, hfeed] using hmem
      exact absurd (isLineEnd_of_mem_escapeMultiline hinside rfl).1 (by decide)
  · exact absurd (oneLine_printString hfeed '\r' hmem) (by decide)

/-- A quote stands behind the last line. -/
theorem exists_quote_printString (s : String) :
    ∃ init quote, (printString s).toList = init ++ [quote] ∧ isMark quote = true := by
  have hmultiline : ∀ (quote : Char) (cs body : List Char), isMark quote = true →
      ∃ init last, multiline quote cs body = init ++ [last] ∧ isMark last = true := by
    intro quote cs body hquote
    exact ⟨_, quote, by rw [multiline, List.replicate_succ', ← List.append_assoc], hquote⟩
  simp only [printString, String.toList_ofList]
  repeat' split
  all_goals first | exact hmultiline _ _ _ rfl | exact ⟨_, _, rfl, rfl⟩

theorem infix_multiline_iff {w body : List Char} (hw : Text.LineWord w) {quote : Char}
    (hquote : isLineEnd quote = false) (hfeed : '\n' ∈ cs) :
    w <:+: multiline quote cs body ↔ w <:+: '\n' :: body := by
  have hquotes := oneLine_replicate hquote 3
  have hcontains : cs.contains '\n' = true := by simpa using hfeed
  rw [multiline, hcontains, if_pos rfl, hw.infix_append_right_iff hquotes, List.append_assoc,
    hw.infix_append_left_iff hquotes, List.singleton_append]

/-- **Lines of plus signs.** Of its lines of plus signs and blanks, a string is written with those that a
line feed ends and that have no character to be escaped. -/
theorem infix_printString_iff {blank : Char → Bool} (hblank : ∀ c, blank c = true → Text.isBlank c = true)
    (hline : isPluses blank line = true) (hfeed : '\n' ∉ line) (s : String) :
    '\n' :: (line ++ ['\n']) <:+: (printString s).toList ↔
      line ∈ (splitFeeds s.toList).dropLast ∧ ∀ c ∈ line, keeps s.toList c = true := by
  have hword := Text.lineWord_pluses hblank hline
  by_cases h : '\n' ∈ s.toList
  · rw [toList_printString_of_feed h]
    split
    · rename_i hraw
      rw [infix_multiline_iff hword rfl h, Text.infix_feed_cons_iff hfeed]
      simp [keeps, hraw]
    · rename_i hraw
      have hplain : ∀ c ∈ line, c ≠ '"' ∧ c ≠ '\\' ∧ c ≠ '\n' := by
        intro c hc
        have hmark := hword.chars c (by simp [hc])
        refine ⟨?_, ?_, fun heq => hfeed (heq ▸ hc)⟩ <;> rintro rfl <;> cases hmark
      rw [infix_multiline_iff hword rfl h, Text.infix_feed_cons_iff hfeed, splitFeeds_escapeMultiline,
        ← List.map_dropLast, List.mem_map]
      simp [keeps, hraw, escapeMultiline_eq_iff hplain]
  · rw [Text.splitFeeds_of_notMem h]
    refine iff_of_false (hword.not_infix_oneLine (oneLine_printString h)) ?_
    simp

-- ---------------------------------------------------------------------------
-- Keys
-- ---------------------------------------------------------------------------

theorem isMark_of_isAlphanum {c : Char} (h : c.isAlphanum = true) : isMark c = true := by
  simp only [Char.isAlphanum, Char.isAlpha, Char.isUpper, Char.isLower, Char.isDigit, Bool.or_eq_true,
    Bool.and_eq_true, decide_eq_true_eq, UInt32.le_iff_toNat_le, ge_iff_le] at h
  change ((65 ≤ c.toNat ∧ c.toNat ≤ 90) ∨ (97 ≤ c.toNat ∧ c.toNat ≤ 122)) ∨
    (48 ≤ c.toNat ∧ c.toNat ≤ 57) at h
  have hplus : c ≠ '+' := by
    rintro rfl
    revert h
    decide
  have hblank : Text.isBlank c = false := by
    simp only [Text.isBlank, Bool.or_eq_false_iff, Bool.and_eq_false_iff, decide_eq_false_iff_not]
    omega
  simp [isMark, hplus, hblank]

theorem isMark_of_isBareKeyChar {c : Char} (h : isBareKeyChar c = true) : isMark c = true := by
  simp only [isBareKeyChar, Bool.or_eq_true, decide_eq_true_eq] at h
  rcases h with (h | rfl) | rfl
  · exact isMark_of_isAlphanum h
  · rfl
  · rfl

/-- A key is on one line and begins with neither a plus sign nor a blank. -/
theorem exists_printKey (key : String) :
    ∃ c rest, (printKey key).toList = c :: rest ∧ isMark c = true ∧ OneLine (c :: rest) := by
  have hbasic : ∃ c rest, basic key.toList = c :: rest ∧ isMark c = true ∧ OneLine (c :: rest) :=
    ⟨'"', _, rfl, rfl, oneLine_basic key.toList⟩
  simp only [printKey]
  split
  · rename_i hbare
    rw [Bool.and_eq_true, List.all_eq_true] at hbare
    obtain ⟨c, rest, hkey⟩ := List.exists_cons_of_ne_nil (l := key.toList) (by simpa using hbare.1)
    rw [hkey] at hbare ⊢
    exact ⟨c, rest, rfl, isMark_of_isBareKeyChar (hbare.2 c List.mem_cons_self),
      fun d hd => Text.isLineEnd_of_isMark (isMark_of_isBareKeyChar (hbare.2 d hd))⟩
  · rw [String.toList_ofList]
    split
    · exact hbasic
    · split
      · rename_i hliteral
        have hplain : OneLine key.toList := by
          intro c hc
          simp only [Bool.and_eq_true, Bool.not_eq_true', List.any_eq_false, Bool.or_eq_true,
            decide_eq_true_eq, not_or] at hliteral
          have hchar := hliteral.1 c hc
          refine Text.isLineEnd_eq_false_iff.mpr ⟨hchar.2, ?_⟩
          rintro rfl
          exact hchar.1 (by decide)
        exact ⟨'\'', _, rfl, rfl, by simp [hplain, isLineEnd]⟩
      · exact hbasic

-- ---------------------------------------------------------------------------
-- Numbers and dates
-- ---------------------------------------------------------------------------

theorem oneLine_digits (n : Nat) : OneLine (Nat.toDigits 10 n) := by
  intro c hc
  have hdigit := Nat.isDigit_of_mem_toDigits (by omega) (Nat.le_refl 10) hc
  exact Text.isLineEnd_of_isMark (isMark_of_isAlphanum (by simp [Char.isAlphanum, hdigit]))

theorem oneLine_toString (n : Int) : OneLine (toString n).toList := by
  cases n with
  | ofNat n =>
    show OneLine (Nat.repr n).toList
    simp [oneLine_digits]
  | negSucc n =>
    show OneLine ("-" ++ Nat.repr (n + 1)).toList
    simp [oneLine_digits, isLineEnd]

theorem oneLine_positional (d : Decimal.Scientific) : OneLine (Decimal.positional d).toList := by
  have hzeros : ∀ n, OneLine (List.replicate n '0') := oneLine_replicate rfl
  have hdigits := oneLine_digits d.digits
  simp only [Decimal.positional]
  split
  · simp [hdigits, hzeros]
  · have hpadded := (hzeros ((-d.exponent).toNat + 1 - (Nat.toDigits 10 d.digits).length)).append hdigits
    rw [String.toList_ofList]
    refine OneLine.append (fun c hc => hpadded c (List.mem_of_mem_take hc)) ?_
    exact OneLine.cons_iff.mpr ⟨rfl, fun c hc => hpadded c (List.mem_of_mem_drop hc)⟩

theorem oneLine_ofFloat (x : Float) : OneLine (Decimal.ofFloat x).toList := by
  have hpositional := oneLine_positional
  simp only [Decimal.ofFloat]
  repeat' split
  all_goals simp [hpositional, isLineEnd]

theorem oneLine_printFloat (x : Float) : OneLine (printFloat x).toList := by
  have htext := oneLine_ofFloat x
  simp only [printFloat]
  repeat' split
  all_goals simp [htext, isLineEnd]

theorem oneLine_padded (width n : Nat) : OneLine (padded width n).toList := by
  simp [padded, oneLine_replicate, oneLine_digits, isLineEnd]

theorem oneLine_show (d : Datetime) : OneLine d.show.toList := by
  have hdate : ∀ date : Date, OneLine date.show.toList := by
    intro date
    simp [Date.show, toString, oneLine_padded, isLineEnd]
  have htime : ∀ time : Time, OneLine time.show.toList := by
    intro time
    have hfraction : OneLine ((padded 9 time.nanosecond).toList.reverse.dropWhile (· = '0')).reverse := by
      intro c hc
      have hmem := (List.dropWhile_suffix _).mem (List.mem_reverse.mp hc)
      exact oneLine_padded 9 time.nanosecond c (List.mem_reverse.mp hmem)
    simp only [Time.show]
    split <;> simp [toString, oneLine_padded, hfraction, isLineEnd]
  have hoffset : ∀ offset : Offset, OneLine offset.show.toList := by
    intro offset
    unfold Offset.show
    repeat' split
    all_goals simp [oneLine_padded, isLineEnd]
  obtain ⟨date, time, offset⟩ := d
  cases date <;> cases time <;> cases offset <;>
    simp [Datetime.show, hdate, htime, hoffset, isLineEnd]

end Literate.Toml
