import Literate.Document.Render
import Literate.Markdown.Target
import Mathlib

/-!
# Targets of links

Behind the text of a link its destination and its title stand in parentheses, and whatever follows those does not
matter (`readInline?_written`). A destination that is a word without parentheses and backslashes, and of whose
ampersands none begins a reference, stands for itself; so does a title without quotes, backslashes and ampersands.
-/

namespace Literate.Markdown.Target

/-- A character of a destination that is written as it is. -/
def isWordChar (c : Char) : Bool :=
  0x20 < c.toNat && !"()\\|".toList.contains c

/-- A character of a title that is written as it is. -/
def isTitleChar (c : Char) : Bool :=
  !(isLineEnd c || "\"\\&|".toList.contains c)

/-- A destination and a title that are written as they are. -/
structure IsWritten (dest title : String) : Prop where
  word : ∀ c ∈ dest.toList, isWordChar c = true
  not_pointed : dest.toList.head? ≠ some '<'
  resolved : unescaped false dest.toList = dest.toList
  line : ∀ c ∈ title.toList, isTitleChar c = true
  /-- A title by itself would be taken for the destination. -/
  behind : dest = "" → title = ""

/-- Whether a destination and a title are written as they are. -/
def isWritten (dest title : String) : Bool :=
  dest.toList.all isWordChar && dest.toList.head? ≠ some '<' && unescaped false dest.toList = dest.toList &&
    title.toList.all isTitleChar && (dest ≠ "" || title = "")

theorem IsWritten.of_isWritten {dest title : String} (h : isWritten dest title = true) : IsWritten dest title := by
  simp only [isWritten, Bool.and_eq_true, List.all_eq_true, decide_eq_true_eq, Bool.or_eq_true] at h
  obtain ⟨⟨⟨⟨hword, hpointed⟩, hresolved⟩, hline⟩, hbehind⟩ := h
  exact ⟨hword, hpointed, hresolved, hline, fun hempty => hbehind.resolve_left (absurd hempty)⟩

theorem isWordChar_iff {c : Char} :
    isWordChar c = true ↔ 0x20 < c.toNat ∧ c ≠ '(' ∧ c ≠ ')' ∧ c ≠ '\\' ∧ c ≠ '|' := by
  simp [isWordChar]

theorem isTitleChar_iff {c : Char} :
    isTitleChar c = true ↔ isLineEnd c = false ∧ c ≠ '"' ∧ c ≠ '\\' ∧ c ≠ '&' ∧ c ≠ '|' := by
  simp [isTitleChar]

variable {inTable : Bool} {cs rest : List Char}

/-- Without backslashes it makes no difference whether a text stands in a table. -/
theorem unescape_inTable (h : '\\' ∉ cs) (fuel : Nat) : unescape inTable fuel cs = unescape false fuel cs := by
  induction fuel generalizing cs with
  | zero => rfl
  | succ fuel ih =>
    cases cs with
    | nil => rfl
    | cons c cs =>
      rw [List.mem_cons, not_or] at h
      obtain ⟨hslash, hcs⟩ := h
      by_cases hand : c = '&'
      · subst hand
        rw [unescape, unescape]
        split
        · rw [ih fun hmem => hcs (List.mem_of_mem_drop hmem)]
        · rw [ih hcs]
      · rw [unescape, unescape, ih hcs]
        all_goals first | exact hand | exact fun _ _ heq _ => hslash heq.symm

/-- A word goes on to what no word has in it. -/
theorem readBare?_word (h : ∀ c ∈ cs, isWordChar c = true) {c : Char} (hc : c = ')' ∨ c = ' ') (read : List Char) :
    readBare? 0 read (cs ++ c :: rest) = some (read.reverse ++ cs, c :: rest) := by
  induction cs generalizing read with
  | nil => rcases hc with rfl | rfl <;> simp [readBare?]
  | cons d cs ih =>
    obtain ⟨hd, hcs⟩ := List.forall_mem_cons.1 h
    obtain ⟨hword, hopen, hclose, hslash, -⟩ := isWordChar_iff.1 hd
    have hrest := ih hcs (d :: read)
    rw [List.cons_append, readBare?]
    · rw [if_neg (by omega), if_neg hopen, if_neg hclose, hrest]
      simp
    · simp [hslash]

theorem readTitleBody?_line (h : ∀ c ∈ cs, isTitleChar c = true) (read : List Char) {fuel : Nat}
    (hfuel : cs.length < fuel) :
    readTitleBody? inTable '"' '"' fuel read (cs ++ '"' :: rest) = some (read.reverse ++ cs, rest) := by
  induction cs generalizing read fuel with
  | nil =>
    obtain ⟨fuel, rfl⟩ : ∃ n, fuel = n + 1 := ⟨fuel - 1, by omega⟩
    simp [readTitleBody?]
  | cons d cs ih =>
    obtain ⟨fuel, rfl⟩ : ∃ n, fuel = n + 1 := ⟨fuel - 1, by omega⟩
    obtain ⟨hd, hcs⟩ := List.forall_mem_cons.1 h
    obtain ⟨hend, hquote, hslash, hand, -⟩ := isTitleChar_iff.1 hd
    rw [isLineEnd, Bool.or_eq_false_iff, decide_eq_false_iff_not, decide_eq_false_iff_not] at hend
    have hrest := ih hcs (d :: read) (by simpa using hfuel)
    simp only [List.cons_append, readTitleBody?, hquote, hend.1, hend.2, hand, hslash, if_false, decide_false,
      Bool.false_and, Bool.false_eq_true, hrest]
    simp

theorem skipSeparator_of_not_isSpace {c : Char} (h : isSpace c = false) (cs : List Char) :
    skipSeparator (c :: cs) = c :: cs := by
  simp only [isSpace, Bool.or_eq_false_iff, decide_eq_false_iff_not] at h
  obtain ⟨⟨hgap, hfeed⟩, hreturn⟩ := h
  simp [skipSeparator, hgap, afterLineEnd?, hfeed, hreturn]

theorem not_isSpace_of_isWordChar {c : Char} (h : isWordChar c = true) : isSpace c = false := by
  obtain ⟨hword, -⟩ := isWordChar_iff.1 h
  have hne : ∀ d : Char, d.toNat ≤ 0x20 → c ≠ d := by
    rintro d hd rfl
    omega
  simp [isSpace, isGap, hne ' ' (by decide), hne '\t' (by decide), hne '\x0B' (by decide), hne '\x0C' (by decide),
    hne '\n' (by decide), hne '\r' (by decide)]

/-- A destination is a word up to what follows it. -/
theorem IsWritten.readDestination? {dest title : String} (h : IsWritten dest title) {c : Char}
    (hc : c = ')' ∨ (c = ' ' ∧ dest ≠ "")) :
    Target.readDestination? (skipSeparator (dest.toList ++ c :: rest)) = some (dest.toList, c :: rest) := by
  have hread : readBare? 0 [] (dest.toList ++ c :: rest) = some (dest.toList, c :: rest) :=
    readBare?_word h.word (hc.imp_right And.left) []
  have hpointed := h.not_pointed
  have hword := h.word
  cases hdest : dest.toList with
  | nil =>
    obtain rfl : c = ')' := hc.resolve_right fun hright => hright.2 (by simpa using hdest)
    rfl
  | cons d cs =>
    rw [hdest] at hread hpointed hword
    have hspace := not_isSpace_of_isWordChar (hword d (List.mem_cons_self ..))
    rw [List.cons_append, skipSeparator_of_not_isSpace hspace, Target.readDestination?]
    · exact hread
    · rintro _ ⟨rfl, -⟩
      exact hpointed rfl

/-- A target is read back, whatever follows it. -/
theorem readInline?_written {dest title : String} (h : IsWritten dest title) (rest : List Char) :
    readInline? inTable ((renderTarget dest title).toList ++ rest) = some (⟨dest, title⟩, rest) := by
  have hresolved : unescaped inTable dest.toList = dest.toList := by
    have hslash : '\\' ∉ dest.toList := fun hmem => (isWordChar_iff.1 (h.word _ hmem)).2.2.2.1 rfl
    exact (unescape_inTable hslash _).trans h.resolved
  by_cases htitle : title = ""
  · subst htitle
    have hwritten : (renderTarget dest "").toList ++ rest = '(' :: (dest.toList ++ ')' :: rest) := by
      simp [renderTarget]
    have hclose : skipSeparator (')' :: rest) = ')' :: rest := skipSeparator_of_not_isSpace rfl rest
    have hnone : readTitle? inTable (')' :: rest) = none := rfl
    rw [hwritten, readInline?, h.readDestination? (.inl rfl)]
    simp only [hclose, hnone, hresolved, String.ofList_toList]
  · have hdest : dest ≠ "" := mt h.behind htitle
    have hwritten : (renderTarget dest title).toList ++ rest =
        '(' :: (dest.toList ++ ' ' :: '"' :: (title.toList ++ '"' :: ')' :: rest)) := by
      simp [renderTarget, htitle]
    have hquote : skipSeparator (' ' :: '"' :: (title.toList ++ '"' :: ')' :: rest)) =
        '"' :: (title.toList ++ '"' :: ')' :: rest) :=
      skipSeparator_of_not_isSpace (c := '"') rfl _
    have hread : readTitle? inTable ('"' :: (title.toList ++ '"' :: ')' :: rest)) =
        some (title.toList, ')' :: rest) :=
      readTitleBody?_line h.line [] (by simp)
    have hclose : skipSeparator (')' :: rest) = ')' :: rest := skipSeparator_of_not_isSpace rfl rest
    rw [hwritten, readInline?, h.readDestination? (.inr ⟨rfl, hdest⟩)]
    simp only [hquote, hread, hclose, hresolved, String.ofList_toList]

end Literate.Markdown.Target
