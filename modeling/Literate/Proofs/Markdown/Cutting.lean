import Literate.Proofs.Markdown.Backticks
import Literate.Proofs.Text.Runs

/-!
# Where a text is cut

A token says what it could do, and so it depends on the characters beside it and on the braces it stands in. Behind
a token the text is cut as if it began there (`CutFrom.behind`), so of a text that is read in parts only the
characters at the joints matter. Three things are cut in a way that can be told from their own characters: a text
whose marks mean nothing where they stand (`CutFrom.idle`), a code span (`CutFrom.code`), and what ends in a
parenthesis (`CutFrom.split`), however many tokens there are inside the last two.
-/

namespace Literate.Markdown

variable {inTable : Bool} {tail : List Char} {before : Option Char} {cs rest : List Char} {tokens : List Token}

-- ---------------------------------------------------------------------------
-- Tokens of a text
-- ---------------------------------------------------------------------------

/-- Tokens that a text is cut into behind a character, whatever the braces are that it stands in. -/
def CutFrom (inTable : Bool) (tail : List Char) (before : Option Char) (cs : List Char) (tokens : List Token) : Prop :=
  ∃ braces, (readTokens inTable tail cs.length before braces cs).1 = tokens

/-- Fuel for every character is enough. -/
theorem readTokens_fuel {fuel : Nat} (h : cs.length ≤ fuel) (before : Option Char) (braces : Braces) :
    readTokens inTable tail fuel before braces cs = readTokens inTable tail cs.length before braces cs := by
  induction hlength : cs.length using Nat.strong_induction_on generalizing fuel cs before braces with
  | _ length ih =>
  cases cs with
  | nil =>
    rw [← hlength]
    cases fuel <;> rfl
  | cons c cs =>
    obtain ⟨fuel, rfl⟩ : ∃ n, fuel = n + 1 := ⟨fuel - 1, by simp at h; omega⟩
    obtain ⟨rest, hcs, hcut⟩ := readToken_begins inTable tail before braces (List.cons_ne_nil c cs)
    have hpos := List.length_pos_of_ne_nil hcut.raw_ne_nil
    have hsum := congrArg List.length hcs
    rw [List.length_append, List.length_cons] at hsum
    rw [List.length_cons] at h hlength
    have hdrop : (c :: cs).drop (readToken inTable tail before braces (c :: cs)).1.raw.length = rest :=
      (congrArg (List.drop _) hcs).trans List.drop_left
    rw [← hlength, readTokens, readTokens]
    · dsimp only
      rw [hdrop, ih rest.length (by omega) (by omega : rest.length ≤ fuel) _ _ rfl,
        ih rest.length (by omega) (by omega : rest.length ≤ cs.length) _ _ rfl]
    all_goals exact List.cons_ne_nil c cs

theorem CutFrom.isCut (h : CutFrom inTable tail before cs tokens) : IsCut tokens cs := by
  obtain ⟨braces, rfl⟩ := h
  exact readTokens_isCut inTable tail cs.length before braces (Nat.le_refl _)

theorem IsCut.rawOf_eq (h : IsCut tokens cs) : rawOf tokens = cs := by
  induction h with
  | nil => rfl
  | cons first others ih => rw [rawOf_cons, ih]

/-- The first token, and what is cut behind it. -/
theorem CutFrom.first (h : CutFrom inTable tail before cs tokens) (hne : cs ≠ []) :
    ∃ braces others rest, tokens = (readToken inTable tail before braces cs).1 :: others ∧
      cs = (readToken inTable tail before braces cs).1.raw ++ rest ∧
      CutFrom inTable tail (readToken inTable tail before braces cs).1.raw.getLast? rest others := by
  obtain ⟨braces, rfl⟩ := h
  obtain ⟨rest, hcs, hcut⟩ := readToken_begins inTable tail before braces hne
  have hpos := List.length_pos_of_ne_nil hcut.raw_ne_nil
  have hlength := congrArg List.length hcs
  rw [List.length_append] at hlength
  obtain ⟨fuel, hfuel⟩ : ∃ n, cs.length = n + 1 := ⟨cs.length - 1, by omega⟩
  have hdrop : cs.drop (readToken inTable tail before braces cs).1.raw.length = rest :=
    (congrArg (List.drop _) hcs).trans List.drop_left
  refine ⟨braces, _, rest, ?_, hcs, (readToken inTable tail before braces cs).2, rfl⟩
  rw [hfuel, readTokens]
  · dsimp only
    rw [hdrop, readTokens_fuel (by omega)]
  · exact hne

theorem CutFrom.nil (h : CutFrom inTable tail before [] tokens) : tokens = [] :=
  h.isCut.eq_nil rfl

theorem CutFrom.cons_inv {token : Token} (h : CutFrom inTable tail before cs (token :: tokens)) :
    ∃ rest, cs = token.raw ++ rest ∧ token.raw ≠ [] ∧ CutFrom inTable tail token.raw.getLast? rest tokens := by
  have hne : cs ≠ [] := by
    rintro rfl
    cases h.nil
  obtain ⟨braces, others, rest, htokens, hcs, hothers⟩ := h.first hne
  obtain ⟨rfl, rfl⟩ := List.cons.inj htokens
  obtain ⟨_, -, hcut⟩ := readToken_begins inTable tail before braces hne
  exact ⟨rest, hcs, hcut.raw_ne_nil, hothers⟩

/-- Behind some of its tokens a text is cut as if it began there. -/
theorem CutFrom.behind {front : List Token} (h : CutFrom inTable tail before cs (front ++ tokens)) :
    ∃ rest, cs = rawOf front ++ rest ∧ CutFrom inTable tail ((rawOf front).getLast?.or before) rest tokens := by
  induction front generalizing before cs with
  | nil => exact ⟨cs, rfl, h⟩
  | cons token front ih =>
    obtain ⟨below, rfl, hraw, hbelow⟩ := h.cons_inv
    obtain ⟨rest, rfl, hrest⟩ := ih hbelow
    obtain ⟨last, hlast⟩ := Option.ne_none_iff_exists'.1 (mt List.getLast?_eq_none_iff.1 hraw)
    refine ⟨rest, by rw [rawOf_cons, List.append_assoc], ?_⟩
    rw [rawOf_cons, List.getLast?_append, hlast, Option.or_assoc, Option.some_or]
    rwa [hlast] at hrest

/-- A token that is read whatever the braces are. -/
theorem CutFrom.token (token : Token) (h : CutFrom inTable tail before (token.raw ++ rest) tokens)
    (hraw : token.raw ≠ [])
    (hread : ∀ braces, (readToken inTable tail before braces (token.raw ++ rest)).1 = token) :
    ∃ others, tokens = token :: others ∧ CutFrom inTable tail token.raw.getLast? rest others := by
  obtain ⟨braces, others, behind, htokens, hcs, hothers⟩ := h.first (by simp [hraw])
  rw [hread] at htokens hcs hothers
  obtain rfl := List.append_cancel_left hcs
  exact ⟨others, htokens, hothers⟩

/-- Text goes on to the next mark. -/
theorem CutFrom.text {c : Char} (h : CutFrom inTable tail before (c :: cs) tokens) (hc : isMark c = false) :
    ∃ others, tokens = .text (c :: cs.takeWhile fun d => !isMark d) :: others ∧
      CutFrom inTable tail (c :: cs.takeWhile fun d => !isMark d).getLast? (cs.dropWhile fun d => !isMark d)
        others := by
  have hsplit : c :: cs =
      (Token.text (c :: cs.takeWhile fun d => !isMark d)).raw ++ cs.dropWhile fun d => !isMark d := by
    rw [Token.raw, List.cons_append, List.takeWhile_append_dropWhile]
  rw [hsplit] at h
  refine h.token (.text _) (List.cons_ne_nil c _) fun braces => ?_
  rw [← hsplit]
  simp [readToken, hc]

-- ---------------------------------------------------------------------------
-- Text that stands for itself
-- ---------------------------------------------------------------------------

/-- A character that is no mark, no bar of a table and no line end. -/
def isPlainChar (c : Char) : Bool :=
  !(isMark c || c = '|' || isLineEnd c)

/-- Whether a mark means nothing between two characters: it escapes nothing, opens nothing and closes nothing. -/
def isIdleMark (before : Option Char) (mark : Char) (next : Option Char) : Bool :=
  mark = '\x7b' || mark = '\x7d' || (mark = '\\' && next.any fun c => !Text.isAsciiPunctuation c) ||
    (mark = '&' && next.all fun c => !(c.isAlphanum || c = '#' || c = ';')) || (mark = '!' && next ≠ some '[') ||
    ((mark = '*' || mark = '_' || mark = '~') && before.isSome && next.isSome && next ≠ some mark &&
      !(canOpenRun mark 1 before next || canCloseRun mark 1 before next))

/-- Whether a text stands for itself between two characters: its characters are plain or idle marks. -/
def isIdle (before after : Option Char) : List Char → Bool
  | [] => true
  | c :: cs => (isPlainChar c || isIdleMark before c (cs.head?.or after)) && isIdle (some c) after cs

theorem not_isMark_of_isPlainChar {c : Char} (h : isPlainChar c = true) : isMark c = false := by
  simp only [isPlainChar, Bool.not_eq_true', Bool.or_eq_false_iff] at h
  exact h.1.1

theorem isMark_of_isIdleMark {mark : Char} {next : Option Char} (h : isIdleMark before mark next = true) :
    isMark mark = true := by
  simp only [isIdleMark, Bool.or_eq_true, Bool.and_eq_true, decide_eq_true_eq] at h
  rcases h with ((((rfl | rfl) | ⟨rfl, -⟩) | ⟨rfl, -⟩) | ⟨rfl, -⟩) | ⟨⟨⟨⟨(rfl | rfl) | rfl, -⟩, -⟩, -⟩, -⟩ <;> rfl

theorem escape?_eq_none {next : Char} (h : Text.isAsciiPunctuation next = false) :
    escape? inTable (next :: cs) = none := by
  have htick : next ≠ '\x60' := by
    rintro rfl
    cases h
  have hslash : next ≠ '\\' := by
    rintro rfl
    cases h
  simp [escape?, htick, hslash, h]

theorem Entity.read?_eq_none (h : cs.head?.all (fun c => !(c.isAlphanum || c = '#' || c = ';')) = true) :
    Entity.read? ('&' :: cs) = none := by
  cases cs with
  | nil => rfl
  | cons next cs =>
    simp only [List.head?_cons, Option.all_some, Bool.not_eq_true', Bool.or_eq_false_iff, decide_eq_false_iff_not] at h
    obtain ⟨⟨halphanum, hsign⟩, hsemicolon⟩ := h
    simp [Entity.read?, hsign, halphanum, hsemicolon]

/-- A mark that means nothing is a text by itself. -/
theorem readToken_idle {mark : Char} (h : isIdleMark before mark cs.head? = true) (braces : Braces) :
    (readToken inTable tail before braces (mark :: cs)).1 = .text [mark] := by
  have hmark := isMark_of_isIdleMark h
  simp only [isIdleMark, Bool.or_eq_true, Bool.and_eq_true, decide_eq_true_eq, Bool.not_eq_true'] at h
  rcases h with ((((rfl | rfl) | ⟨rfl, hnext⟩) | ⟨rfl, hnext⟩) | ⟨rfl, hnext⟩) | ⟨⟨⟨⟨hrun, -⟩, hsome⟩, hnext⟩, hidle⟩
  · rfl
  · rfl
  · cases cs with
    | nil => cases hnext
    | cons next cs =>
      have hescape : escape? inTable (next :: cs) = none := escape?_eq_none (by simpa using hnext)
      simp [readToken, hmark, hescape]
  · simp [readToken, hmark, Entity.read?_eq_none hnext]
  · simp [readToken, hmark, hnext]
  · obtain ⟨next, cs, rfl⟩ : ∃ next others, cs = next :: others := by
      cases cs with
      | nil => cases hsome
      | cons next cs => exact ⟨next, cs, rfl⟩
    have hne : next ≠ mark := by simpa using hnext
    have hlength : runLength mark (next :: cs) = 0 := runLength_cons_of_ne hne cs
    have hkind : (mark = '*' || mark = '_' || mark = '~') = true := by simpa using hrun
    have hslash : mark ≠ '\\' := by rcases hrun with (rfl | rfl) | rfl <;> decide
    have hand : mark ≠ '&' := by rcases hrun with (rfl | rfl) | rfl <;> decide
    rw [Bool.or_eq_false_iff, List.head?_cons] at hidle
    simp [readToken, hmark, hlength, hkind, hslash, hand, hidle]

theorem isIdle_of_append {after : Option Char} {front : List Char} (h : isIdle before after (front ++ cs) = true) :
    isIdle (front.getLast?.or before) after cs = true := by
  induction front generalizing before with
  | nil => exact h
  | cons c front ih =>
    rw [List.cons_append, isIdle, Bool.and_eq_true] at h
    have hrest := ih h.2
    rw [List.getLast?_cons]
    cases hlast : front.getLast? with
    | none =>
      rw [hlast] at hrest
      exact hrest
    | some last =>
      rw [hlast] at hrest
      exact hrest

/-- A text that stands for itself is inside a line and inside a cell. -/
theorem inline_of_isIdle {after : Option Char} (h : isIdle before after cs = true) :
    ∀ c ∈ cs, isLineEnd c = false ∧ c ≠ '|' := by
  induction cs generalizing before with
  | nil => exact List.forall_mem_nil _
  | cons d cs ih =>
    rw [isIdle, Bool.and_eq_true, Bool.or_eq_true] at h
    refine List.forall_mem_cons.2 ⟨?_, ih h.2⟩
    rcases h.1 with hplain | hmark
    · simp only [isPlainChar, Bool.not_eq_true', Bool.or_eq_false_iff, decide_eq_false_iff_not] at hplain
      exact ⟨hplain.2, hplain.1.2⟩
    · have hd := isMark_of_isIdleMark hmark
      constructor
      · by_contra hend
        simp only [isLineEnd, Bool.not_eq_false, Bool.or_eq_true, decide_eq_true_eq] at hend
        rcases hend with rfl | rfl <;> cases hd
      · rintro rfl
        cases hd

/-- The first token of an idle text is what is plain at its front, or an idle mark. -/
theorem CutFrom.idle_first {c : Char} (h : CutFrom inTable tail before (c :: cs ++ rest) tokens)
    (hidle : isIdle before rest.head? (c :: cs) = true)
    (hrest : ∀ last ∈ (c :: cs).getLast?, isMark last = false → ∀ d ∈ rest.head?, isMark d = true) :
    ∃ front below others, c :: cs = front ++ below ∧ front ≠ [] ∧ tokens = .text front :: others ∧
      CutFrom inTable tail front.getLast? (below ++ rest) others := by
  have hne : c :: cs ≠ [] := List.cons_ne_nil c cs
  by_cases hc : isMark c = true
  · have hmark : isIdleMark before c (cs ++ rest).head? = true := by
      rw [isIdle, Bool.and_eq_true, Bool.or_eq_true] at hidle
      rw [List.head?_append]
      refine hidle.1.resolve_left fun hplain => ?_
      rw [not_isMark_of_isPlainChar hplain] at hc
      cases hc
    obtain ⟨others, htokens, hothers⟩ := h.token (.text [c]) (List.cons_ne_nil c [])
      (readToken_idle hmark)
    exact ⟨[c], cs, others, rfl, List.cons_ne_nil c [], htokens, hothers⟩
  · let nonmark := fun d => !isMark d
    rw [Bool.not_eq_true] at hc
    obtain ⟨run, below, rfl, hrun, hbelow⟩ : ∃ run below, cs = run ++ below ∧ (∀ d ∈ run, nonmark d = true) ∧
        ∀ d ∈ (below ++ rest).head?, nonmark d = false := by
      refine ⟨cs.takeWhile nonmark, cs.dropWhile nonmark, List.takeWhile_append_dropWhile.symm,
        fun d hd => List.mem_takeWhile_imp hd, fun d hd => ?_⟩
      cases hdrop : cs.dropWhile nonmark with
      | nil =>
        have hall : ∀ e ∈ c :: cs, isMark e = false := by
          have hcs := List.dropWhile_eq_nil_iff.1 hdrop
          exact List.forall_mem_cons.2 ⟨hc, fun e he => by simpa [nonmark] using hcs e he⟩
        obtain ⟨last, hlast⟩ := Option.ne_none_iff_exists'.1 (mt List.getLast?_eq_none_iff.1 hne)
        rw [hdrop, List.nil_append] at hd
        have hd := hrest last hlast (hall last (List.mem_of_getLast? hlast)) d hd
        simpa [nonmark] using hd
      | cons e below =>
        rw [hdrop] at hd
        cases hd
        have hstop := List.head?_dropWhile_not nonmark cs
        rwa [hdrop] at hstop
    rw [List.cons_append, List.append_assoc] at h
    obtain ⟨others, htokens, hothers⟩ := h.text hc
    rw [Text.takeWhile_run hrun hbelow] at htokens hothers
    rw [Text.dropWhile_run hrun hbelow] at hothers
    exact ⟨c :: run, below, others, rfl, List.cons_ne_nil c run, htokens, hothers⟩

/-- A text that stands for itself is cut into texts, up to what does not go on with it. -/
theorem CutFrom.idle (h : CutFrom inTable tail before (cs ++ rest) tokens)
    (hidle : isIdle before rest.head? cs = true) (hne : cs ≠ [])
    (hrest : ∀ last ∈ cs.getLast?, isMark last = false → ∀ c ∈ rest.head?, isMark c = true) :
    ∃ texts others, tokens = texts.map Token.text ++ others ∧ texts ≠ [] ∧ texts.flatten = cs ∧
      CutFrom inTable tail cs.getLast? rest others := by
  induction hlength : cs.length using Nat.strong_induction_on generalizing cs before tokens with
  | _ length ih =>
  obtain ⟨c, cs, rfl⟩ := List.exists_cons_of_ne_nil hne
  obtain ⟨front, below, others, hcs, hfront, rfl, hothers⟩ := h.idle_first hidle hrest
  rw [hcs] at hlength hidle hrest ⊢
  by_cases hnil : below = []
  · rw [hnil, List.append_nil]
    rw [hnil, List.nil_append] at hothers
    exact ⟨[front], others, rfl, List.cons_ne_nil front [], List.append_nil front, hothers⟩
  · have hpos := List.length_pos_of_ne_nil hfront
    rw [List.length_append] at hlength
    have hlater := isIdle_of_append hidle
    obtain ⟨last, hlast⟩ := Option.ne_none_iff_exists'.1 (mt List.getLast?_eq_none_iff.1 hfront)
    rw [hlast, Option.some_or] at hlater
    rw [hlast] at hothers
    rw [List.getLast?_append_of_ne_nil _ hnil] at hrest ⊢
    obtain ⟨texts, behind, rfl, -, htexts, hbehind⟩ := ih _ (by omega) hothers hlater hnil hrest rfl
    exact ⟨front :: texts, behind, rfl, List.cons_ne_nil front texts, by rw [List.flatten_cons, htexts], hbehind⟩

-- ---------------------------------------------------------------------------
-- Code
-- ---------------------------------------------------------------------------

theorem splitAtTicks?_ticks (size : Nat) (escaped : Bool) (tokens : List Token) :
    splitAtTicks? size (.ticks size escaped :: tokens) = some ([], escaped, tokens) := by
  rw [splitAtTicks?, if_pos rfl]

theorem splitAtTicks?_cons {size : Nat} {token : Token} (h : ∀ escaped, token ≠ .ticks size escaped)
    (tokens : List Token) :
    splitAtTicks? size (token :: tokens) =
      (splitAtTicks? size tokens).map fun found => (token :: found.1, found.2) := by
  cases token with
  | ticks run escaped =>
    have hrun : run ≠ size := by
      rintro rfl
      exact h escaped rfl
    rw [splitAtTicks?, if_neg hrun]
  | _ => rfl

/-- The tokens that are found as a span, its fence, and what is behind them are all there were. -/
theorem eq_append_of_splitAtTicks? {size : Nat} {inner behind : List Token} {escaped : Bool}
    (h : splitAtTicks? size tokens = some (inner, escaped, behind)) :
    tokens = inner ++ .ticks size escaped :: behind := by
  induction tokens generalizing inner with
  | nil => cases h
  | cons token tokens ih =>
    by_cases hticks : ∃ escaped, token = .ticks size escaped
    · obtain ⟨e, rfl⟩ := hticks
      rw [splitAtTicks?_ticks] at h
      cases h
      rfl
    · rw [splitAtTicks?_cons (not_exists.1 hticks)] at h
      obtain ⟨⟨found, e, rest⟩, hsplit, heq⟩ := Option.map_eq_some_iff.1 h
      cases heq
      exact congrArg (token :: ·) (ih hsplit)

theorem splitAtTicks?_append {size : Nat} {inner behind : List Token} {escaped : Bool}
    (h : splitAtTicks? size tokens = some (inner, escaped, behind)) (more : List Token) :
    splitAtTicks? size (tokens ++ more) = some (inner, escaped, behind ++ more) := by
  induction tokens generalizing inner with
  | nil => cases h
  | cons token tokens ih =>
    rw [List.cons_append]
    by_cases hticks : ∃ escaped, token = .ticks size escaped
    · obtain ⟨e, rfl⟩ := hticks
      rw [splitAtTicks?_ticks] at h ⊢
      cases h
      rfl
    · rw [splitAtTicks?_cons (not_exists.1 hticks)] at h ⊢
      obtain ⟨⟨found, e, rest⟩, hsplit, heq⟩ := Option.map_eq_some_iff.1 h
      cases heq
      rw [ih hsplit]
      rfl

/-- A code span is cut into its fences and what is between them. -/
theorem CutFrom.code (h : CutFrom inTable tail before cs tokens) (hsize : runLength '\x60' cs ≠ 0)
    {inner : List Char}
    (hspan : splitAtRun? (runLength '\x60' cs) 0 (cs.drop (runLength '\x60' cs)) = some (inner, rest)) :
    ∃ others found escaped behind, tokens = .ticks (runLength '\x60' cs) false :: others ∧
      splitAtTicks? (runLength '\x60' cs) others = some (found, escaped, behind) ∧
      inner = rawOf found ++ (if escaped then ['\\'] else []) ∧
      CutFrom inTable tail (some '\x60') rest behind := by
  obtain ⟨others, rfl, hothers⟩ := h.isCut.eq_ticks hsize
  have hfound := hothers.splitAtTicks? hsize
  rw [hspan] at hfound
  cases hsplit : splitAtTicks? (runLength '\x60' cs) others with
  | none =>
    rw [hsplit] at hfound
    cases hfound
  | some found =>
    obtain ⟨found, escaped, behind⟩ := found
    rw [hsplit] at hfound
    obtain ⟨hinner, hbehind⟩ : IsSpan (found, escaped, behind) (inner, rest) := by
      cases hfound
      assumption
    refine ⟨others, found, escaped, behind, rfl, hsplit, hinner, ?_⟩
    rw [eq_append_of_splitAtTicks? hsplit, ← List.cons_append] at h
    obtain ⟨fence, -, hfence⟩ := h.behind
    obtain ⟨below, -, -, hbelow⟩ := hfence.cons_inv
    have hlast : (Token.ticks (runLength '\x60' cs) escaped).raw.getLast? = some '\x60' := by
      rw [Token.raw, List.getLast?_append_of_ne_nil _ (by simpa using hsize), List.getLast?_replicate, if_neg hsize]
    rw [hlast, hbelow.isCut.rawOf_eq.symm.trans hbehind.rawOf_eq] at hbelow
    exact hbelow

-- ---------------------------------------------------------------------------
-- Parentheses
-- ---------------------------------------------------------------------------

/-- A token that begins with a mark has a parenthesis in it only as an escape. -/
theorem escape_of_paren_mem {c : Char} (hmark : isMark c = true) (braces : Braces)
    (h : ')' ∈ (readToken inTable tail before braces (c :: cs)).1.raw) :
    (readToken inTable tail before braces (c :: cs)).1.raw = ['\\', ')'] := by
  have hne : c ≠ ')' := by
    rintro rfl
    cases hmark
  rw [readToken] at h ⊢
  simp only [hmark, Bool.not_true, Bool.false_eq_true, if_false] at h ⊢
  by_cases hslash : c = '\\'
  · rw [if_pos hslash] at h ⊢
    subst hslash
    cases hescape : escape? inTable cs with
    | none =>
      rw [hescape] at h
      simp [Token.raw] at h
    | some token =>
      rw [hescape, Option.getD_some] at h
      rw [Option.getD_some]
      cases cs with
      | nil => cases hescape
      | cons d cs =>
        rw [escape?] at hescape
        split_ifs at hescape <;> cases hescape
        · simp [Token.raw] at h
        · simp [Token.raw] at h
        · obtain rfl : ')' = d := by simpa [Token.raw] using h
          rfl
  rw [if_neg hslash] at h ⊢
  by_cases hand : c = '&'
  · rw [if_pos hand] at h
    subst hand
    cases hread : Entity.read? ('&' :: cs) with
    | none =>
      rw [hread] at h
      simp [Token.raw] at h
    | some found =>
      rw [hread] at h
      exact absurd h (Entity.notMem_read? (by decide) hread).2
  rw [if_neg hand] at h ⊢
  -- what is left are runs of one mark, single marks and the opening of an image
  exfalso
  split_ifs at h <;> simp [Token.raw, hne.symm] at h

/-- Characters without marks, up to a mark, are one token. -/
theorem CutFrom.cons_text {run : List Char} (h : CutFrom inTable tail run.getLast? rest tokens) (hne : run ≠ [])
    (hrun : ∀ c ∈ run, isMark c = false) (hrest : ∀ c ∈ rest.head?, isMark c = true) (before : Option Char) :
    CutFrom inTable tail before (run ++ rest) (.text run :: tokens) := by
  obtain ⟨braces, rfl⟩ := h
  obtain ⟨c, run, rfl⟩ := List.exists_cons_of_ne_nil hne
  obtain ⟨hc, hrun⟩ := List.forall_mem_cons.1 hrun
  have hplain : ∀ d ∈ run, (!isMark d) = true := fun d hd => by rw [hrun d hd]; rfl
  have htoken : readToken inTable tail before braces (c :: (run ++ rest)) = (.text (c :: run), braces) := by
    have htake := Text.takeWhile_run hplain fun d hd => by rw [hrest d hd]; rfl
    simp [readToken, hc, htake]
  have hdrop : (c :: (run ++ rest)).drop (c :: run).length = rest := List.drop_left
  refine ⟨braces, ?_⟩
  rw [List.cons_append, List.length_cons, readTokens, htoken]
  · dsimp only
    rw [Token.raw, hdrop, readTokens_fuel (by simp)]
  · exact List.cons_ne_nil _ _

/-- The token that a parenthesis stands in goes on to the next mark, if the parenthesis is not escaped. -/
theorem CutFrom.eq_text_of_paren {front more : List Char} {token : Token}
    (h : CutFrom inTable tail before (front ++ ')' :: rest) (token :: tokens)) (hraw : token.raw = front ++ ')' :: more)
    (hfront : front.getLast? ≠ some '\\') :
    token = .text (front ++ ')' :: more) ∧ (∀ c ∈ more, isMark c = false) ∧
      ∃ below, rest = more ++ below ∧ (∀ c ∈ below.head?, isMark c = true) := by
  obtain ⟨c, cs, hcs⟩ := List.exists_cons_of_ne_nil (show front ++ ')' :: rest ≠ [] by simp)
  have hc : isMark c = false := by
    by_contra hmark
    obtain ⟨braces, others, below, htokens, -, -⟩ := h.first (by simp)
    obtain ⟨rfl, -⟩ := List.cons.inj htokens
    have hescape : front ++ ')' :: more = ['\\', ')'] := by
      rw [hcs] at hraw
      rw [← hraw]
      exact escape_of_paren_mem (by simpa using hmark) braces (by rw [hraw]; simp)
    match front, hescape with
    | ['\\'], _ => exact hfront rfl
    | [], hescape => simp at hescape
    | _ :: _ :: _, hescape => simp at hescape
  rw [hcs] at h
  obtain ⟨others, htokens, -⟩ := h.text hc
  obtain ⟨rfl, -⟩ := List.cons.inj htokens
  have hraw : (c :: cs.takeWhile fun d => !isMark d) = front ++ ')' :: more := hraw
  have hsplit : front ++ ')' :: rest = front ++ ')' :: more ++ cs.dropWhile fun d => !isMark d := by
    rw [hcs, ← hraw, List.cons_append, List.takeWhile_append_dropWhile]
  refine ⟨congrArg Token.text hraw, fun d hd => ?_, cs.dropWhile fun d => !isMark d, by simpa using hsplit, ?_⟩
  · have hmem : d ∈ c :: cs.takeWhile fun d => !isMark d := by
      rw [hraw]
      simp [hd]
    rcases List.mem_cons.1 hmem with rfl | hmem
    · exact hc
    · simpa using List.mem_takeWhile_imp hmem
  · intro d hd
    have hstop := List.head?_dropWhile_not (fun d => !isMark d) cs
    rw [Option.mem_def.1 hd] at hstop
    simpa using hstop

/-- What ends in a parenthesis that is not escaped can be taken off the tokens, and what is left is cut as if the
text began there. -/
theorem CutFrom.split {front : List Char} (h : CutFrom inTable tail before (front ++ ')' :: rest) tokens)
    (hfront : front.getLast? ≠ some '\\') :
    CutFrom inTable tail (some ')') rest (splitTokens (front.length + 1) tokens).2 := by
  induction tokens generalizing before front with
  | nil =>
    have hraw := h.isCut.rawOf_eq
    cases front <;> cases hraw
  | cons token tokens ih =>
    obtain ⟨below, hcs, hraw, hothers⟩ := h.cons_inv
    rw [splitTokens, if_neg (Nat.succ_ne_zero _)]
    obtain ⟨later, rfl, rfl⟩ | ⟨more, htoken, rfl⟩ :
        (∃ later, front = token.raw ++ later ∧ below = later ++ ')' :: rest) ∨
          ∃ more, token.raw = front ++ ')' :: more ∧ rest = more ++ below := by
      rcases List.append_eq_append_iff.1 hcs with ⟨more, htoken, hbelow⟩ | ⟨later, hfront, hbelow⟩
      · cases more with
        | nil => exact .inl ⟨[], by simpa using htoken.symm, by simpa using hbelow.symm⟩
        | cons d more =>
          obtain ⟨rfl, rfl⟩ := List.cons.inj hbelow
          exact .inr ⟨more, htoken, rfl⟩
      · exact .inl ⟨later, hfront, hbelow⟩
    · -- the token is inside, and the parenthesis is further behind
      have hlater : later.getLast? ≠ some '\\' := by
        intro hlast
        rw [List.getLast?_append, hlast] at hfront
        exact hfront rfl
      have hrest := ih hothers hlater
      have hshort : token.raw.length ≤ (token.raw ++ later).length + 1 := by
        rw [List.length_append]
        omega
      have hleft : (token.raw ++ later).length + 1 - token.raw.length = later.length + 1 := by
        rw [List.length_append]
        omega
      rw [if_pos hshort, hleft]
      exact hrest
    · -- of the token that the parenthesis stands in the front is taken off
      obtain ⟨rfl, hmore, stop, hbelow, hstop⟩ := h.eq_text_of_paren htoken hfront
      obtain rfl : below = stop := List.append_cancel_left hbelow
      cases more with
      | nil =>
        have hlength : (Token.text (front ++ [')'])).raw.length = front.length + 1 := by simp [Token.raw]
        have hzero : splitTokens 0 tokens = ([], tokens) := by cases tokens <;> rfl
        rw [if_pos (Nat.le_of_eq hlength), hlength, Nat.sub_self, hzero]
        rw [Token.raw, List.getLast?_concat] at hothers
        exact hothers
      | cons d more =>
        have hlong : ¬ (Token.text (front ++ ')' :: d :: more)).raw.length ≤ front.length + 1 := by
          simp [Token.raw]
        have hdrop : (Token.text (front ++ ')' :: d :: more)).drop (front.length + 1) = .text (d :: more) := by
          rw [Token.drop, if_neg (Nat.succ_ne_zero _), Token.raw, List.append_cons]
          exact congrArg Token.text (List.drop_left' (by simp))
        rw [if_neg hlong, hdrop]
        refine CutFrom.cons_text ?_ (List.cons_ne_nil d more) hmore hstop _
        rw [Token.raw, List.append_cons, List.getLast?_append_of_ne_nil _ (List.cons_ne_nil d more)] at hothers
        exact hothers

/-- Tokens of other texts do not get in the way. -/
theorem splitTokens_append {n : Nat} (h : n ≤ (rawOf tokens).length) (more : List Token) :
    (splitTokens n (tokens ++ more)).2 = (splitTokens n tokens).2 ++ more := by
  induction tokens generalizing n with
  | nil =>
    obtain rfl : n = 0 := Nat.le_zero.1 h
    cases more <;> rfl
  | cons token tokens ih =>
    rw [rawOf_cons, List.length_append] at h
    rw [List.cons_append, splitTokens, splitTokens]
    split_ifs with hzero hshort
    · rfl
    · exact ih (by omega)
    · rfl

theorem length_splitTokens_le (n : Nat) (tokens : List Token) : (splitTokens n tokens).2.length ≤ tokens.length := by
  induction tokens generalizing n with
  | nil => exact Nat.le_refl 0
  | cons token tokens ih =>
    rw [splitTokens]
    split_ifs
    · exact Nat.le_refl _
    · exact Nat.le_succ_of_le (ih _)
    · exact Nat.le_refl _

end Literate.Markdown
