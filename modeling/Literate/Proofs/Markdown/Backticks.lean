import Literate.Proofs.Markdown.CodeSpan

/-!
# Backticks among the tokens

Cutting a text into tokens leaves its runs of backticks whole: a token is such a run, perhaps with a backslash
before it that it was escaped with, or has no backtick in it (`readToken_begins`). So the first pass over the
tokens finds the end of a code span where the rule does (`IsCut.splitAtTicks?`), and what is a code span by the
rule is read as that span, whatever the tokens inside would have meant elsewhere.

Main results: `phrase_span`, and for spans that are written `phrase_render_code`.
-/

namespace Literate.Markdown

-- ---------------------------------------------------------------------------
-- Tokens without backticks
-- ---------------------------------------------------------------------------

/-- A token that is cut off a text: a whole run of backticks, perhaps behind a backslash, or characters
among which there is no backtick. -/
inductive Token.CutOff (rest : List Char) : Token → Prop where
  | ticks {size : Nat} (escaped : Bool) (size_ne_zero : size ≠ 0) (ends : rest.head? ≠ some '\x60') :
      CutOff rest (.ticks size escaped)
  | other {token : Token} (not_ticks : ∀ size escaped, token ≠ .ticks size escaped)
      (raw_ne_nil : token.raw ≠ []) (tick_notMem : '\x60' ∉ token.raw) : CutOff rest token

/-- The token at the front of a text. -/
def Token.Begins (token : Token) (cs : List Char) : Prop :=
  ∃ rest, cs = token.raw ++ rest ∧ token.CutOff rest

/-- A character that no character reference has in it. -/
def isForeign (c : Char) : Bool :=
  !(c.isAlphanum || (Text.hexValue? c).isSome || c = '&' || c = '#' || c = ';')

section

variable {c : Char}

theorem notMem_take {p : Char → Bool} (h : p c = false) {run cs : List Char} (hrun : run <+: cs)
    (hall : ∀ d ∈ run, p d = true) : c ∉ cs.take run.length := by
  rw [← List.prefix_iff_eq_take.1 hrun]
  intro hmem
  rw [hall _ hmem] at h
  cases h

theorem notMem_take_succ (hc : c ≠ ';') {cs rest : List Char} {n : Nat} (h : c ∉ cs.take n)
    (hsemicolon : cs.drop n = ';' :: rest) : c ∉ cs.take (n + 1) := by
  rw [List.take_add, hsemicolon, List.mem_append]
  simp [h, hc]

theorem Entity.notMem_take_digits {isDigit : Char → Bool} (h : isDigit c = false) (limit : Nat)
    (cs : List Char) : c ∉ cs.take (Entity.digits isDigit limit cs).length :=
  Markdown.notMem_take h ((List.takeWhile_prefix _).trans (List.take_prefix ..)) fun _ hmem =>
    List.mem_takeWhile_imp hmem

variable (hc : isForeign c = true)
include hc

theorem Entity.notMem_readNumber? {cs shown : List Char} {size : Nat}
    (h : Entity.readNumber? cs = some (shown, size)) : 2 < size ∧ c ∉ cs.take (size - 2) := by
  simp only [isForeign, Bool.not_eq_true', Bool.or_eq_false_iff, decide_eq_false_iff_not] at hc
  obtain ⟨⟨⟨⟨halphanum, hhexadecimal⟩, -⟩, -⟩, hsemicolon⟩ := hc
  have hdecimal : c.isDigit = false := by
    rw [Char.isAlphanum, Bool.or_eq_false_iff] at halphanum
    exact halphanum.2
  have hhex (x : Char) (hx : x.isAlphanum = true) (rest : List Char) :
      c ∉ (x :: rest).take (1 + (Entity.digits (fun c => (Text.hexValue? c).isSome) 6 rest).length) := by
    have hne : c ≠ x := by
      rintro rfl
      rw [halphanum] at hx
      cases hx
    rw [Nat.add_comm, List.take_succ_cons, List.mem_cons, not_or]
    exact ⟨hne, Entity.notMem_take_digits hhexadecimal 6 rest⟩
  unfold Entity.readNumber? at h
  split at h
  rename_i lead run n hparts
  have hdigits : c ∉ cs.take (lead + run.length) := by
    split at hparts
    · cases hparts
      exact hhex 'x' (by decide) _
    · cases hparts
      exact hhex 'X' (by decide) _
    · cases hparts
      rw [Nat.zero_add]
      exact Entity.notMem_take_digits hdecimal 7 cs
  split at h
  · cases h
  split at h
  · rename_i rest hdrop
    cases h
    have htake := notMem_take_succ hsemicolon hdigits hdrop
    refine ⟨by omega, ?_⟩
    rwa [show 2 + lead + run.length + 1 - 2 = lead + run.length + 1 by omega]
  · cases h

/-- A foreign character does not stand in a character reference. -/
theorem Entity.notMem_read? {cs shown : List Char} {size : Nat}
    (h : Entity.read? cs = some (shown, size)) : size ≠ 0 ∧ c ∉ cs.take size := by
  have hnumber := @Entity.notMem_readNumber? c hc
  simp only [isForeign, Bool.not_eq_true', Bool.or_eq_false_iff, decide_eq_false_iff_not] at hc
  obtain ⟨⟨⟨⟨halphanum, -⟩, hand⟩, hsign⟩, hsemicolon⟩ := hc
  unfold Entity.read? at h
  split at h
  · rename_i rest
    obtain ⟨hsize, hrest⟩ := hnumber h
    obtain ⟨n, rfl⟩ : ∃ n, size = n + 2 := ⟨size - 2, by omega⟩
    refine ⟨by omega, ?_⟩
    rw [Nat.add_sub_cancel] at hrest
    simp [hand, hsign, hrest]
  · rename_i rest _
    have hname : c ∉ rest.take (rest.takeWhile Char.isAlphanum).length :=
      Markdown.notMem_take halphanum (List.takeWhile_prefix _) fun _ hmem => List.mem_takeWhile_imp hmem
    dsimp only at h
    split at h
    · rename_i hdrop
      obtain ⟨text, -, hread⟩ := Option.map_eq_some_iff.1 h
      cases hread
      have htake := notMem_take_succ hsemicolon hname hdrop
      refine ⟨by omega, ?_⟩
      rw [List.take_succ_cons, List.mem_cons, not_or]
      exact ⟨hand, htake⟩
    · cases h
  · cases h

end

/-- A token of one character that is no backtick. -/
theorem begins_single {token : Token} {c : Char} (hraw : token.raw = [c]) (hc : c ≠ '\x60')
    (hticks : ∀ size escaped, token ≠ .ticks size escaped) (cs : List Char) : token.Begins (c :: cs) := by
  refine ⟨cs, by rw [hraw]; rfl, .other hticks (by simp [hraw]) ?_⟩
  simpa [hraw] using hc.symm

/-- A run of backticks is one token. -/
theorem begins_ticks (cs : List Char) :
    (Token.ticks (1 + runLength '\x60' cs) false).Begins ('\x60' :: cs) := by
  obtain ⟨rest, hcs, hrest⟩ := eq_run_append '\x60' cs
  refine ⟨rest, ?_, .ticks false (by omega) hrest⟩
  rw [Token.raw, if_neg Bool.false_ne_true, List.nil_append, Nat.add_comm, List.replicate_succ,
    List.cons_append, ← hcs]

/-- An escape takes a whole run of backticks, or another mark. -/
theorem begins_escape {inTable : Bool} {cs : List Char} {token : Token}
    (h : escape? inTable cs = some token) : token.Begins ('\\' :: cs) := by
  cases cs with
  | nil => cases h
  | cons c cs =>
    rw [escape?] at h
    split at h
    · rename_i hc
      cases h
      subst hc
      obtain ⟨rest, hcs, hrest⟩ := eq_run_append '\x60' cs
      refine ⟨rest, ?_, .ticks true (by omega) hrest⟩
      rw [Token.raw, if_pos rfl, Nat.add_comm, List.replicate_succ, List.singleton_append,
        List.cons_append, List.cons_append, ← hcs]
    · rename_i hc
      split at h
      · rename_i hbar
        cases h
        simp only [Bool.and_eq_true, decide_eq_true_eq] at hbar
        obtain ⟨⟨-, rfl⟩, hhead⟩ := hbar
        obtain ⟨cs, rfl⟩ := List.head?_eq_some_iff.1 hhead
        exact ⟨cs, rfl, .other (fun _ _ => Token.noConfusion) (List.cons_ne_nil _ _) (by simp [Token.raw])⟩
      · split at h
        · cases h
          refine ⟨cs, rfl, .other (fun _ _ => Token.noConfusion) (List.cons_ne_nil _ _) ?_⟩
          simpa [Token.raw] using Ne.symm hc
        · cases h

theorem begins_replicate {token : Token} {c : Char} {cs : List Char} (hc : c ≠ '\x60')
    (hraw : token.raw = List.replicate (1 + runLength c cs) c)
    (hticks : ∀ size escaped, token ≠ .ticks size escaped) : token.Begins (c :: cs) := by
  obtain ⟨rest, hcs, -⟩ := eq_run_append c cs
  refine ⟨rest, ?_, .other hticks ?_ ?_⟩
  · rw [hraw, Nat.add_comm, List.replicate_succ, List.cons_append, ← hcs]
  · rw [hraw, ne_eq, List.replicate_eq_nil_iff]
    omega
  · rw [hraw, List.mem_replicate]
    exact fun hmem => hc hmem.2.symm

/-- Text goes on to the next mark. -/
theorem begins_text {c : Char} (hmark : isMark c = false) (cs : List Char) :
    (Token.text (c :: cs.takeWhile fun d => !isMark d)).Begins (c :: cs) := by
  refine ⟨cs.dropWhile fun d => !isMark d, ?_, .other (fun _ _ => Token.noConfusion)
    (List.cons_ne_nil _ _) ?_⟩
  · rw [Token.raw, List.cons_append, List.takeWhile_append_dropWhile]
  · rw [Token.raw, List.mem_cons, not_or]
    refine ⟨?_, fun hmem => absurd (List.mem_takeWhile_imp hmem) (by decide)⟩
    rintro rfl
    exact absurd hmark (by decide)

/-- A character reference is one token. -/
theorem begins_reference {c : Char} {cs shown : List Char} {size : Nat}
    (h : Entity.read? (c :: cs) = some (shown, size)) :
    (Token.replaced ((c :: cs).take size) shown).Begins (c :: cs) := by
  obtain ⟨hsize, hticks⟩ := Entity.notMem_read? (c := '\x60') (by decide) h
  refine ⟨(c :: cs).drop size, (List.take_append_drop ..).symm,
    .other (fun _ _ => Token.noConfusion) ?_ hticks⟩
  rw [Token.raw, ne_eq, List.take_eq_nil_iff]
  simp [hsize]

/-- An exclamation mark takes the bracket behind it. -/
theorem begins_image {cs : List Char} (h : cs.head? = some '[') : Token.imageOpen.Begins ('!' :: cs) := by
  obtain ⟨rest, rfl⟩ := List.head?_eq_some_iff.1 h
  exact ⟨rest, rfl, .other (fun _ _ => Token.noConfusion) (List.cons_ne_nil _ _) (by simp [Token.raw])⟩

/-- Every token is cut off the text at its front. -/
theorem readToken_begins (inTable : Bool) (tail : List Char) (before : Option Char) (braces : Braces)
    {cs : List Char} (hne : cs ≠ []) : (readToken inTable tail before braces cs).1.Begins cs := by
  obtain ⟨c, cs, rfl⟩ := List.exists_cons_of_ne_nil hne
  -- a mark that begins nothing is a text of one character
  have htext (hc : c ≠ '\x60') : (Token.text [c]).Begins (c :: cs) :=
    begins_single rfl hc (fun _ _ => Token.noConfusion) cs
  rw [readToken]
  dsimp only
  by_cases hmark : isMark c = true
  swap
  · rw [if_pos (by simpa using hmark)]
    exact begins_text (by simpa using hmark) cs
  rw [if_neg (by simpa using hmark)]
  by_cases hslash : c = '\\'
  · rw [if_pos hslash]
    subst hslash
    cases hescape : escape? inTable cs with
    | none => exact htext (by decide)
    | some token => exact begins_escape hescape
  rw [if_neg hslash]
  by_cases hand : c = '&'
  · rw [if_pos hand]
    subst hand
    cases hread : Entity.read? ('&' :: cs) with
    | none => exact htext (by decide)
    | some found => exact begins_reference hread
  rw [if_neg hand]
  by_cases hrun : (c = '*' || c = '_' || c = '~') = true
  · have htick : c ≠ '\x60' := by
      rintro rfl
      exact absurd hrun (by decide)
    rw [if_pos hrun]
    split <;> exact begins_replicate htick rfl fun _ _ => Token.noConfusion
  rw [if_neg hrun]
  by_cases htick : c = '\x60'
  · rw [if_pos htick]
    subst htick
    exact begins_ticks cs
  rw [if_neg htick]
  -- the other marks are one character each, but for the bracket of an image
  split
  · subst c
    exact begins_single rfl htick (fun _ _ => Token.noConfusion) cs
  split
  · exact htext htick
  split
  · exact htext htick
  split
  · subst c
    split
    · exact htext htick
    · exact begins_single rfl htick (fun _ _ => Token.noConfusion) cs
  split
  · subst c
    split
    · rename_i hhead
      exact begins_image hhead
    · exact htext htick
  split
  · subst c
    exact begins_single rfl htick (fun _ _ => Token.noConfusion) cs
  · obtain rfl : c = ']' := by
      simp [isMark] at hmark hrun
      tauto
    exact begins_single rfl htick (fun _ _ => Token.noConfusion) cs

-- ---------------------------------------------------------------------------
-- Tokens of a text
-- ---------------------------------------------------------------------------

theorem rawOf_cons (token : Token) (tokens : List Token) :
    rawOf (token :: tokens) = token.raw ++ rawOf tokens :=
  List.flatMap_cons

theorem rawOf_append (first second : List Token) : rawOf (first ++ second) = rawOf first ++ rawOf second :=
  List.flatMap_append

/-- Tokens that are cut off a text one after the other, until nothing of it is left. -/
inductive IsCut : List Token → List Char → Prop where
  | nil : IsCut [] []
  | cons {token : Token} {tokens : List Token} {rest : List Char} (first : token.CutOff rest)
      (others : IsCut tokens rest) : IsCut (token :: tokens) (token.raw ++ rest)

theorem Token.CutOff.raw_ne_nil {token : Token} {rest : List Char} (h : token.CutOff rest) :
    token.raw ≠ [] := by
  cases h with
  | ticks escaped hsize _ => simp [Token.raw, hsize]
  | other _ hne _ => exact hne

theorem IsCut.eq_nil {tokens : List Token} {cs : List Char} (h : IsCut tokens cs) (hcs : cs = []) :
    tokens = [] := by
  cases h with
  | nil => rfl
  | cons first _ => exact absurd (List.append_eq_nil_iff.1 hcs).1 first.raw_ne_nil

theorem readTokens_isCut (inTable : Bool) (tail : List Char) (fuel : Nat) (before : Option Char)
    (braces : Braces) {cs : List Char} (hfuel : cs.length ≤ fuel) :
    IsCut (readTokens inTable tail fuel before braces cs).1 cs := by
  induction fuel generalizing before braces cs with
  | zero =>
    obtain rfl := List.length_eq_zero_iff.1 (Nat.le_zero.1 hfuel)
    exact .nil
  | succ fuel ih =>
    cases cs with
    | nil => exact .nil
    | cons c cs =>
      obtain ⟨rest, hcs, hcut⟩ :=
        readToken_begins inTable tail before braces (List.cons_ne_nil c cs)
      have hpos := List.length_pos_of_ne_nil hcut.raw_ne_nil
      have hlength := congrArg List.length hcs
      rw [List.length_append] at hlength
      have hless : rest.length ≤ fuel := by
        rw [List.length_cons] at hlength hfuel
        omega
      -- A token takes one character at least, so the fuel lasts for what is behind it.
      have hothers := ih (readToken inTable tail before braces (c :: cs)).1.raw.getLast?
        (readToken inTable tail before braces (c :: cs)).2 hless
      have hdrop : (c :: cs).drop (readToken inTable tail before braces (c :: cs)).1.raw.length = rest :=
        (congrArg (List.drop _) hcs).trans List.drop_left
      rw [readTokens]
      · dsimp only
        rw [hdrop]
        conv => rhs; rw [hcs]
        exact .cons hcut hothers
      · exact List.cons_ne_nil c cs

theorem tokensOf_isCut (inTable : Bool) (tail cs : List Char) : IsCut (tokensOf inTable tail cs) cs :=
  readTokens_isCut inTable tail cs.length none .none (Nat.le_refl _)

/-- Tokens that were found as a span, and the characters of the span and behind it. -/
def IsSpan (found : List Token × Bool × List Token) (span : List Char × List Char) : Prop :=
  span.1 = rawOf found.1 ++ (if found.2.1 then ['\\'] else []) ∧ IsCut found.2.2 span.2

theorem IsSpan.map_cons (token : Token) {found : Option (List Token × Bool × List Token)}
    {span : Option (List Char × List Char)} (h : Option.Rel IsSpan found span) :
    Option.Rel IsSpan (found.map fun (inner, e, rest) => (token :: inner, e, rest))
      (span.map fun span => (token.raw ++ span.1, span.2)) := by
  cases h with
  | none => exact .none
  | @some found span h =>
    refine .some ⟨?_, h.2⟩
    show token.raw ++ span.1 = _
    rw [h.1, rawOf_cons, List.append_assoc]

/-- Among the tokens of a text, the end of a span is found where the rule finds it. -/
theorem IsCut.splitAtTicks? {tokens : List Token} {cs : List Char} (h : IsCut tokens cs) {size : Nat}
    (hsize : size ≠ 0) :
    Option.Rel IsSpan (Markdown.splitAtTicks? size tokens) (splitAtRun? size 0 cs) := by
  induction h with
  | nil =>
    rw [splitAtRun?, if_neg hsize.symm]
    exact .none
  | @cons token tokens rest first others ih =>
    cases first with
    | @ticks run escaped hrun hends =>
      have hescape : '\x60' ∉ (if escaped then ['\\'] else []) := by cases escaped <;> decide
      have hraw : (Token.ticks run escaped).raw ++ rest =
          (if escaped then ['\\'] else []) ++ (List.replicate run '\x60' ++ rest) :=
        List.append_assoc ..
      rw [Markdown.splitAtTicks?, hraw, splitAtRun?_plain hsize hescape, splitAtRun?_run hsize hends,
        Nat.zero_add]
      by_cases hfound : run = size
      · rw [if_pos hfound, if_pos hfound]
        exact .some ⟨List.append_nil _, others⟩
      · rw [if_neg hfound, if_neg hfound, Option.map_map]
        have hspan := IsSpan.map_cons (.ticks run escaped) ih
        rw [Token.raw] at hspan
        simpa only [Function.comp_def, List.append_assoc] using hspan
    | other hticks hne htick =>
      rw [splitAtRun?_plain hsize htick]
      rw [Markdown.splitAtTicks?]
      · exact IsSpan.map_cons token ih
      · exact hticks

/-- The first token of a text that begins with backticks is the run of them. -/
theorem IsCut.eq_ticks {tokens : List Token} {cs : List Char} (h : IsCut tokens cs)
    (hsize : runLength '\x60' cs ≠ 0) : ∃ others,
      tokens = .ticks (runLength '\x60' cs) false :: others ∧
        IsCut others (cs.drop (runLength '\x60' cs)) := by
  cases h with
  | nil => exact absurd rfl hsize
  | @cons token others rest first hothers =>
    have hhead : (token.raw ++ rest).head? = some '\x60' := by
      by_contra hne
      exact hsize (runLength_replicate_append 0 hne)
    rw [List.head?_append_of_ne_nil _ first.raw_ne_nil] at hhead
    cases first with
    | @ticks size escaped _ hends =>
      cases escaped with
      | true => cases hhead
      | false =>
        have hrun : runLength '\x60' ((Token.ticks size false).raw ++ rest) = size :=
          runLength_replicate_append size hends
        have hdrop : ((Token.ticks size false).raw ++ rest).drop size = rest :=
          List.drop_left' (List.length_replicate ..)
        rw [hrun, hdrop]
        exact ⟨others, rfl, hothers⟩
    | other _ _ htick => exact absurd (List.mem_of_mem_head? hhead) htick

/-- A run of backticks becomes the span that the rule finds behind it. -/
theorem readPhrase_ticks {size : Nat} (hsize : size ≠ 0) {others : List Token} {cs : List Char}
    (hcut : IsCut others cs) {inner rest : List Char} (hspan : splitAtRun? size 0 cs = some (inner, rest))
    (inTable : Bool) (definitions : Definitions) (r : Reading) :
    ∃ behind, readPhrase inTable definitions r (.ticks size false) others =
      (r.add (.node (.code .empty (String.ofList (codeText inTable inner)))), behind) ∧
        IsCut behind rest := by
  have hfound := hcut.splitAtTicks? hsize
  rw [hspan] at hfound
  rcases hsplit : splitAtTicks? size others with _ | ⟨tokens, backslash, behind⟩
  · rw [hsplit] at hfound
    cases hfound
  · rw [hsplit] at hfound
    obtain ⟨hinner, hbehind⟩ : IsSpan (tokens, backslash, behind) (inner, rest) := by
      cases hfound
      assumption
    refine ⟨behind, ?_, hbehind⟩
    have hinner : inner = rawOf tokens ++ if backslash then ['\\'] else [] := hinner
    rw [readPhrase, hinner]
    simp [hsize, hsplit]

theorem readCodeSpan?_eq_some_iff {cs text rest : List Char} :
    readCodeSpan? cs = some (text, rest) ↔ runLength '\x60' cs ≠ 0 ∧ ∃ inner,
      splitAtRun? (runLength '\x60' cs) 0 (cs.drop (runLength '\x60' cs)) = some (inner, rest) ∧
        codeText false inner = text := by
  rw [readCodeSpan?]
  by_cases hsize : runLength '\x60' cs = 0
  · simp [hsize]
  · simp [hsize]

/-- A text that is one span by the rule is read as that span. -/
theorem phrase_span {cs text : List Char} (h : readCodeSpan? cs = some (text, []))
    (definitions : Definitions) (tail : List Char) :
    phrase false definitions (tokensOf false tail cs) = [.code .empty (String.ofList text)] := by
  obtain ⟨hsize, inner, hspan, rfl⟩ := readCodeSpan?_eq_some_iff.1 h
  obtain ⟨others, htokens, hothers⟩ := (tokensOf_isCut false tail cs).eq_ticks hsize
  obtain ⟨behind, hread, hbehind⟩ :=
    readPhrase_ticks hsize hothers hspan false definitions .empty
  have hend (fuel : Nat) (r : Reading) : readPhrases false definitions fuel r behind = r := by
    rw [hbehind.eq_nil rfl]
    cases fuel <;> rfl
  rw [phrase, htokens, List.length_cons, readPhrases, hread]
  dsimp only
  rw [hend]
  rfl

/-- The two fences of an empty span are one run of backticks. -/
theorem phrase_render_code_empty (definitions : Definitions) (tail : List Char) :
    phrase false definitions (tokensOf false tail (Inline.code .empty "").render.toList) =
      [.text "\x60\x60"] :=
  rfl

/-- **The reader** reads a span that is written as its text, exactly if the text is not empty and has no
spaces to lose. -/
theorem phrase_render_code (text : String) (h : ∀ c ∈ text.toList, isLineEnd c = false)
    (definitions : Definitions) (tail : List Char) :
    phrase false definitions (tokensOf false tail (Inline.code .empty text).render.toList) =
      [.code .empty text] ↔ text ≠ "" ∧ ¬ HasOuterSpaces text.toList := by
  by_cases hne : text = ""
  · rw [hne, phrase_render_code_empty]
    simp
  · have hread := phrase_span (readCodeSpan?_padded hne) definitions tail
    rw [Inline.render, hread, ← codeText_padded_iff h]
    simp [hne, ← String.toList_inj]

end Literate.Markdown
