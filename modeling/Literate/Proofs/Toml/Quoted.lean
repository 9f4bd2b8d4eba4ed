import Literate.Proofs.Toml.Scalars
import Literate.Toml.Scan

/-!
# Strings and keys read back

Whatever style a string is written in, it is read as the string it was. Between three quotes the reader takes
runs of quotes at once, so what is written there is cut into runs of at most two quotes and single characters
(`Inside`); a run of three closes the string, and up to two quotes in front of it belong to it.

Main results: `readString_printString`, `readKeyPart_printKey`.
-/

namespace Literate.Toml

variable {cs : List Char} {c : Char}

-- ---------------------------------------------------------------------------
-- Escapes
-- ---------------------------------------------------------------------------

theorem isVisible_of_not_control (hcontrol : isControl c = false) (hfeed : c ≠ '\n') :
    isVisible c = true := by
  simp only [isControl, Bool.or_eq_false_iff, Bool.and_eq_false_iff, decide_eq_false_iff_not,
    not_not] at hcontrol
  obtain ⟨hlow, hdelete⟩ := hcontrol
  have hdelete : c ≠ '\x7F' := by
    rintro rfl
    exact hdelete rfl
  rcases hlow with (hlow | rfl) | rfl
  · simp [isVisible, isCommentChar, hdelete, Nat.le_of_not_lt hlow]
  · rfl
  · exact absurd rfl hfeed

theorem readCode_controlDigits (h : isControl c = true) (construct : Construct) (rest : List Char) :
    readCode construct 4 (controlDigits c ++ rest) = .ok (c, rest) := by
  have hall : ∀ n < 128, isControl (Char.ofNat n) = true →
      (controlDigits (Char.ofNat n)).length = 4 ∧
        (controlDigits (Char.ofNat n)).all (fun d => (Text.hexValue? d).isSome) = true ∧
        Text.hexNumber (controlDigits (Char.ofNat n)) = n := by decide +kernel
  have hsmall : c.toNat < 128 := by
    simp only [isControl, Bool.or_eq_true, Bool.and_eq_true, decide_eq_true_eq] at h
    omega
  have hdigits := hall c.toNat hsmall
  rw [Char.ofNat_toNat] at hdigits
  obtain ⟨hlength, hhex, hnumber⟩ := hdigits h
  have htake : ((controlDigits c ++ rest).take 4).takeWhile (fun d => (Text.hexValue? d).isSome) =
      controlDigits c := by
    rw [List.take_left' hlength, List.takeWhile_eq_self_iff]
    exact List.all_eq_true.mp hhex
  have hvalid : c.toNat.isValidChar := c.valid
  simp only [readCode, htake, hlength, hnumber, List.drop_left' hlength, Char.ofNat_toNat]
  simp [hvalid, Attempt.cut, Attempt.within, Except.mapError]

/-- A character is written as it is, or as an escape that is read as the character. -/
theorem escapeBasic_read (c : Char) :
    (escapeBasic c = [c] ∧ c ≠ '"' ∧ c ≠ '\\' ∧ isVisible c = true) ∨
      ∃ d code, escapeBasic c = '\\' :: d :: code ∧ isTomlBlank d = false ∧ d ≠ '\n' ∧ d ≠ '\r' ∧
        ∀ rest, readEscape (d :: code ++ rest) = .ok (c, rest) := by
  unfold escapeBasic
  split_ifs with hquote hbackslash hfeed htab hreturn hback hform hcontrol
  · subst hquote
    exact .inr ⟨'"', [], rfl, rfl, by decide, by decide, fun rest => rfl⟩
  · subst hbackslash
    exact .inr ⟨'\\', [], rfl, rfl, by decide, by decide, fun rest => rfl⟩
  · exact .inr ⟨'n', [], rfl, rfl, by decide, by decide, fun rest => hfeed ▸ rfl⟩
  · exact .inr ⟨'t', [], rfl, rfl, by decide, by decide, fun rest => htab ▸ rfl⟩
  · exact .inr ⟨'r', [], rfl, rfl, by decide, by decide, fun rest => hreturn ▸ rfl⟩
  · exact .inr ⟨'b', [], rfl, rfl, by decide, by decide, fun rest => hback ▸ rfl⟩
  · exact .inr ⟨'f', [], rfl, rfl, by decide, by decide, fun rest => hform ▸ rfl⟩
  · refine .inr ⟨'u', controlDigits c, rfl, rfl, by decide, by decide, fun rest => ?_⟩
    exact readCode_controlDigits hcontrol .shortCode rest
  · exact .inl ⟨rfl, hquote, hbackslash, isVisible_of_not_control (by simpa using hcontrol) hfeed⟩

-- ---------------------------------------------------------------------------
-- On one line
-- ---------------------------------------------------------------------------

theorem readBasic_escaped (cs rest : List Char) {fuel : Nat} (hfuel : cs.length < fuel) (read : List Char) :
    readBasic fuel read (cs.flatMap escapeBasic ++ '"' :: rest) =
      .ok (String.ofList (read.reverse ++ cs), rest) := by
  induction cs generalizing fuel read with
  | nil =>
    obtain ⟨fuel, rfl⟩ := Nat.exists_eq_succ_of_ne_zero (Nat.ne_of_gt hfuel)
    simp [readBasic, pure, Except.pure]
  | cons c cs ih =>
    obtain ⟨fuel, rfl⟩ := Nat.exists_eq_succ_of_ne_zero (Nat.ne_of_gt (Nat.zero_lt_of_lt hfuel))
    have hless : cs.length < fuel := by simpa using hfuel
    have hrest := ih hless (c :: read)
    rw [List.reverse_cons, List.append_assoc, List.singleton_append] at hrest
    rw [List.flatMap_cons, List.append_assoc]
    rcases escapeBasic_read c with ⟨hself, hquote, hbackslash, hvisible⟩ | ⟨d, code, hescape, -, -, -, hread⟩
    · rw [hself, List.singleton_append, readBasic]
      simp only [hquote, hbackslash, hvisible, if_false, if_true]
      exact hrest
    · rw [hescape, List.cons_append, readBasic]
      have hcode := hread (cs.flatMap escapeBasic ++ '"' :: rest)
      simp only [List.cons_append] at hcode ⊢
      simp [hcode, hrest, bind, Except.bind]

theorem readLiteral_literal (hvisible : ∀ c ∈ cs, isVisible c = true) (hquote : '\'' ∉ cs) (rest : List Char) :
    readLiteral (cs ++ '\'' :: rest) = .ok (String.ofList cs, rest) := by
  have htake : (cs ++ '\'' :: rest).takeWhile (fun c => isVisible c && c ≠ '\'') = cs := by
    rw [List.takeWhile_append_of_pos, List.takeWhile_cons_of_neg, List.append_nil]
    · simp
    · intro c hc
      have hne : c ≠ '\'' := fun heq => hquote (heq ▸ hc)
      simp [hvisible c hc, hne]
  simp only [readLiteral, htake, List.drop_left]

-- ---------------------------------------------------------------------------
-- Between three quotes
-- ---------------------------------------------------------------------------

/-- A text and what is written for it between three quotes. -/
inductive Inside (quote : Char) : List Char → List Char → Prop where
  | nil : Inside quote [] []
  | feed {cs written : List Char} (rest : Inside quote cs written) : Inside quote ('\n' :: cs) ('\n' :: written)
  | char {c : Char} {cs written : List Char} (visible : isVisible c = true) (not_quote : c ≠ quote)
      (no_escape : c = '\\' → quote ≠ '"') (rest : Inside quote cs written) :
      Inside quote (c :: cs) (c :: written)
  | escape {c d : Char} {code cs written : List Char} (basic : quote = '"') (not_blank : isTomlBlank d = false)
      (not_feed : d ≠ '\n') (not_return : d ≠ '\r')
      (reads : ∀ rest, readEscape (d :: code ++ rest) = .ok (c, rest)) (rest : Inside quote cs written) :
      Inside quote (c :: cs) ('\\' :: d :: (code ++ written))
  | quotes {size : Nat} {cs written : List Char} (pos : 1 ≤ size) (le : size ≤ 2)
      (apart : written.head? ≠ some quote) (rest : Inside quote cs written) :
      Inside quote (List.replicate size quote ++ cs) (List.replicate size quote ++ written)

theorem Inside.first {quote next : Char} {written more : List Char} (h : Inside quote cs written)
    (hquote : isVisible quote = true) (hwritten : written = next :: more) :
    isVisible next = true ∨ next = '\n' := by
  cases h with
  | nil => cases hwritten
  | feed => exact .inr (List.cons.inj hwritten).1.symm
  | char visible => exact .inl ((List.cons.inj hwritten).1 ▸ visible)
  | escape => exact .inl ((List.cons.inj hwritten).1 ▸ rfl)
  | quotes pos =>
    obtain ⟨size, rfl⟩ := Nat.exists_eq_succ_of_ne_zero (Nat.ne_of_gt pos)
    rw [List.replicate_succ] at hwritten
    exact .inl ((List.cons.inj hwritten).1 ▸ hquote)

theorem Inside.eq_nil {quote : Char} {written : List Char} (h : Inside quote cs written)
    (hwritten : written = []) : cs = [] := by
  cases h with
  | nil => rfl
  | quotes pos =>
    obtain ⟨hquotes, -⟩ := List.append_eq_nil_iff.mp hwritten
    rw [List.replicate_eq_nil_iff] at hquotes
    omega
  | _ => cases hwritten

theorem takeWhile_quotes {quote : Char} {rest : List Char} (hrest : rest.head? ≠ some quote) (size : Nat) :
    (List.replicate size quote ++ rest).takeWhile (· = quote) = List.replicate size quote := by
  rw [List.takeWhile_append_of_pos (by simp)]
  cases rest with
  | nil => simp
  | cons d rest => simp [show d ≠ quote by simpa using hrest]

section

variable {quote : Char} (construct : Construct)

/-- Three quotes or more close the string, and those in front of the last three belong to it. -/
theorem readMultiline_close {rest : List Char} (hrest : rest.head? ≠ some quote) {size : Nat} (hsize : size ≤ 2)
    (fuel : Nat) (read : List Char) :
    readMultiline quote construct (fuel + 1) read (List.replicate size quote ++ (List.replicate 3 quote ++ rest)) =
      .ok (String.ofList (read.reverse ++ List.replicate size quote), rest) := by
  have hcons : List.replicate (size + 3) quote ++ rest = quote :: (List.replicate (size + 2) quote ++ rest) := by
    rw [List.replicate_succ, List.cons_append]
  have htake := takeWhile_quotes hrest (size + 3)
  have hkept : min 2 (size + 3 - 3) = size := by omega
  have hdrop : (List.replicate (size + 3) quote ++ rest).drop (size + 3) = rest := List.drop_left' (by simp)
  rw [← List.append_assoc, List.replicate_append_replicate]
  rw [hcons] at htake hdrop ⊢
  rw [readMultiline]
  simp only [htake, List.length_replicate, hkept, hdrop, if_true, Nat.le_add_left, List.reverse_append,
    List.reverse_replicate]
  rfl

/-- Fewer quotes belong to the string. -/
theorem readMultiline_quotes {next : Char} {more : List Char} (hnext : next ≠ quote)
    (hvisible : isVisible next = true ∨ next = '\n') {size : Nat} (hpos : 1 ≤ size) (hsize : size ≤ 2)
    (fuel : Nat) (read : List Char) :
    readMultiline quote construct (fuel + 1) read (List.replicate size quote ++ next :: more) =
      readMultiline quote construct fuel (List.replicate size quote ++ read) (next :: more) := by
  have hapart : (next :: more).head? ≠ some quote := by simpa using hnext
  have htake := takeWhile_quotes hapart size
  have hdrop : (List.replicate size quote ++ next :: more).drop size = next :: more := List.drop_left' (by simp)
  obtain ⟨n, rfl⟩ := Nat.exists_eq_succ_of_ne_zero (Nat.ne_of_gt hpos)
  have hcons : List.replicate (n + 1) quote ++ next :: more = quote :: (List.replicate n quote ++ next :: more) := by
    rw [List.replicate_succ, List.cons_append]
  have hfits : (isVisible next || (afterNewline? (next :: more)).isSome) = true := by
    rcases hvisible with h | rfl
    · rw [h, Bool.true_or]
    · rw [afterNewline?, Option.isSome_some, Bool.or_true]
  rw [hcons] at htake hdrop ⊢
  conv_lhs => rw [readMultiline]
  simp only [htake, List.length_replicate, hdrop, if_true, if_neg (show ¬ 3 ≤ n + 1 by omega), hfits]

theorem afterNewline?_of_visible (hvisible : isVisible c = true) (ds : List Char) : afterNewline? (c :: ds) = none := by
  unfold afterNewline?
  split
  · rename_i heq
    cases heq
    cases hvisible
  · rename_i heq
    cases heq
    cases hvisible
  · rfl

theorem afterEscapedNewline?_of_ne {d : Char} (hblank : isTomlBlank d = false) (hfeed : d ≠ '\n')
    (hreturn : d ≠ '\r') (ds : List Char) : afterEscapedNewline? (d :: ds) = none := by
  rw [afterEscapedNewline?, dropBlanks, List.dropWhile_cons_of_neg (by simp [hblank])]
  unfold afterNewline?
  split
  · rename_i heq
    exact absurd (List.cons.inj heq).1 hfeed
  · rename_i heq
    exact absurd (List.cons.inj heq).1 hreturn
  · rfl

/-- What is written for a text between three quotes is read as the text. -/
theorem readMultiline_inside (hquote : quote = '"' ∨ quote = '\'') {written : List Char}
    (h : Inside quote cs written) {rest : List Char} (hrest : rest.head? ≠ some quote) {fuel : Nat}
    (hfuel : written.length < fuel) (read : List Char) :
    readMultiline quote construct fuel read (written ++ (List.replicate 3 quote ++ rest)) =
      .ok (String.ofList (read.reverse ++ cs), rest) := by
  induction h generalizing fuel read with
  | nil =>
    obtain ⟨fuel, rfl⟩ := Nat.exists_eq_succ_of_ne_zero (Nat.ne_of_gt hfuel)
    simpa using readMultiline_close construct hrest (Nat.zero_le 2) fuel read
  | @feed cs written inside ih =>
    obtain ⟨fuel, rfl⟩ := Nat.exists_eq_succ_of_ne_zero (Nat.ne_of_gt (Nat.zero_lt_of_lt hfuel))
    have hne : '\n' ≠ quote := by rcases hquote with rfl | rfl <;> decide
    have hless : written.length < fuel := by simpa using hfuel
    have hbelow := ih hless ('\n' :: read)
    rw [List.cons_append, readMultiline]
    simpa [hne, afterNewline?] using hbelow
  | @char c cs written visible not_quote no_escape inside ih =>
    obtain ⟨fuel, rfl⟩ := Nat.exists_eq_succ_of_ne_zero (Nat.ne_of_gt (Nat.zero_lt_of_lt hfuel))
    have hless : written.length < fuel := by simpa using hfuel
    have hbelow := ih hless (c :: read)
    have hescape : ¬ (c = '\\' ∧ quote = '"') := fun h => no_escape h.1 h.2
    rw [List.cons_append, readMultiline]
    simpa [not_quote, hescape, afterNewline?_of_visible visible, visible] using hbelow
  | @escape c d code cs written basic not_blank not_feed not_return reads inside ih =>
    subst basic
    obtain ⟨fuel, rfl⟩ := Nat.exists_eq_succ_of_ne_zero (Nat.ne_of_gt (Nat.zero_lt_of_lt hfuel))
    have hless : written.length < fuel := by
      simp at hfuel
      omega
    have hbelow := ih hless (c :: read)
    have hcode := reads (written ++ (List.replicate 3 '"' ++ rest))
    have hnewline := afterEscapedNewline?_of_ne not_blank not_feed not_return
    rw [List.cons_append, readMultiline]
    simp only [List.cons_append, List.append_assoc] at hcode ⊢
    simp only [hnewline, hcode]
    simpa [Attempt.within, Except.mapError, bind, Except.bind] using hbelow
  | @quotes size cs written pos le apart inside ih =>
    obtain ⟨fuel, rfl⟩ := Nat.exists_eq_succ_of_ne_zero (Nat.ne_of_gt (Nat.zero_lt_of_lt hfuel))
    cases written with
    | nil =>
      obtain rfl := inside.eq_nil rfl
      simpa using readMultiline_close construct hrest le fuel read
    | cons next more =>
      have hless : (next :: more).length < fuel := by
        simp at hfuel ⊢
        omega
      have hbelow := ih hless (List.replicate size quote ++ read)
      have hvisible : isVisible quote = true := by rcases hquote with rfl | rfl <;> rfl
      have hnext := inside.first hvisible rfl
      rw [List.append_assoc, List.cons_append,
        readMultiline_quotes construct (by simpa using apart) hnext pos le]
      simpa using hbelow

end

-- ---------------------------------------------------------------------------
-- Texts between three quotes
-- ---------------------------------------------------------------------------

theorem Inside.behind_quotes {quote : Char} {written : List Char} (h : Inside quote cs written)
    (hapart : written.head? ≠ some quote) {size : Nat} (hsize : size ≤ 2) :
    Inside quote (List.replicate size quote ++ cs) (List.replicate size quote ++ written) := by
  rcases Nat.eq_zero_or_pos size with rfl | hpos
  · exact h
  · exact .quotes hpos hsize hapart h

theorem replicate_append_cons (n : Nat) (c : Char) (cs : List Char) :
    List.replicate n c ++ c :: cs = List.replicate (n + 1) c ++ cs := by
  rw [List.replicate_succ', List.append_assoc, List.singleton_append]

/-- What is written with escapes, behind quotes that are written already. -/
theorem inside_escapeMultiline {run : Nat} (hrun : run ≤ 2) (cs : List Char) :
    Inside '"' (List.replicate run '"' ++ cs) (List.replicate run '"' ++ escapeMultiline run cs) := by
  fun_induction escapeMultiline run cs with
  | case1 run => exact Inside.nil.behind_quotes (by simp) hrun
  | case2 run cs ih => exact (Inside.feed (ih (Nat.zero_le 2))).behind_quotes (by simp) hrun
  | case3 cs ih =>
    have hescape : Inside '"' ('"' :: cs) ('\\' :: '"' :: ([] ++ escapeMultiline 0 cs)) :=
      .escape rfl rfl (by decide) (by decide) (fun _ => rfl) (ih (Nat.zero_le 2))
    exact hescape.behind_quotes (by simp) hrun
  | case4 run cs hne ih =>
    rw [replicate_append_cons, replicate_append_cons]
    exact ih (by omega)
  | case5 run c cs hfeed hquote ih =>
    have hbelow := ih (Nat.zero_le 2)
    rcases escapeBasic_read c with
      ⟨hself, hne, hbackslash, hvisible⟩ | ⟨d, code, hescape, hblank, hfeed, hreturn, hread⟩
    · rw [hself]
      exact (Inside.char hvisible hne (fun h => absurd h hbackslash) hbelow).behind_quotes (by simpa using hne) hrun
    · rw [hescape]
      exact (Inside.escape rfl hblank hfeed hreturn hread hbelow).behind_quotes (by simp) hrun

/-- A text without control characters and without three apostrophes in a row, behind apostrophes that are
written already. -/
theorem inside_literal {run : Nat} (hcontrol : cs.any isControl = false)
    (hrun : Text.longestRunFrom '\'' run cs ≤ 2) :
    Inside '\'' (List.replicate run '\'' ++ cs) (List.replicate run '\'' ++ cs) := by
  induction cs generalizing run with
  | nil => exact Inside.nil.behind_quotes (by simp) hrun
  | cons c cs ih =>
    rw [List.any_cons, Bool.or_eq_false_iff] at hcontrol
    rw [Text.longestRunFrom] at hrun
    by_cases hquote : c = '\''
    · rw [if_pos hquote] at hrun
      rw [hquote, replicate_append_cons]
      exact ih hcontrol.2 hrun
    · rw [if_neg hquote, Nat.max_le] at hrun
      have hbelow : Inside '\'' cs cs := ih hcontrol.2 hrun.2
      by_cases hfeed : c = '\n'
      · subst hfeed
        exact (Inside.feed hbelow).behind_quotes (by simp) hrun.1
      · have hvisible := isVisible_of_not_control hcontrol.1 hfeed
        exact (Inside.char hvisible hquote (fun _ => by decide) hbelow).behind_quotes (by simpa using hquote) hrun.1

theorem afterNewline?_append {front : List Char} (hne : front ≠ []) (h : Text.OneLine front) (back : List Char) :
    afterNewline? (front ++ back) = none := by
  obtain ⟨c, front, rfl⟩ := List.exists_cons_of_ne_nil hne
  have hc := h c List.mem_cons_self
  rw [Text.isLineEnd_eq_false_iff] at hc
  unfold afterNewline?
  split
  · rename_i heq
    exact absurd (List.cons.inj heq).1 hc.1
  · rename_i heq
    exact absurd (List.cons.inj heq).1 hc.2
  · rfl

/-- A line feed behind the opening quotes does not belong to the string; one is written there if the string has
any, so that none of its own is taken. -/
theorem readString_multiline {quote : Char} (hquote : quote = '"' ∨ quote = '\'') {written : List Char}
    (h : Inside quote cs written) (hline : '\n' ∉ cs → Text.OneLine written) {rest : List Char}
    (hrest : rest.head? ≠ some quote) :
    readString (multiline quote cs written ++ rest) = .ok (String.ofList cs, rest) := by
  let front := if cs.contains '\n' then ['\n'] else []
  let closing := List.replicate 3 quote ++ rest
  have hwhole : multiline quote cs written ++ rest =
      quote :: quote :: quote :: (front ++ (written ++ closing)) := by
    simp [multiline, front, closing, List.replicate]
  have hbody : (afterNewline? (front ++ (written ++ closing))).getD (front ++ (written ++ closing)) =
      written ++ closing := by
    by_cases hfeed : '\n' ∈ cs
    · simp [front, hfeed, afterNewline?]
    · have hquotes : Text.OneLine (List.replicate 3 quote) :=
        oneLine_replicate (by rcases hquote with rfl | rfl <;> rfl) 3
      have hnone := afterNewline?_append (by simp) ((hline hfeed).append hquotes) rest
      rw [List.append_assoc] at hnone
      have hnil : front = [] := by simp [front, hfeed]
      rw [hnil, List.nil_append, hnone, Option.getD_none]
  have hfuel : written.length < (quote :: quote :: quote :: (front ++ (written ++ closing))).length + 1 := by
    simp
    omega
  rw [hwhole]
  rcases hquote with rfl | rfl
  · simp only [readString, hbody]
    exact readMultiline_inside _ (.inl rfl) h hrest hfuel []
  · simp only [readString, hbody]
    exact readMultiline_inside _ (.inr rfl) h hrest hfuel []

theorem length_le_escaped (cs : List Char) : cs.length ≤ (cs.flatMap escapeBasic).length := by
  induction cs with
  | nil => exact Nat.le_refl 0
  | cons c cs ih =>
    have hpos : 1 ≤ (escapeBasic c).length := by
      rcases escapeBasic_eq_or c with h | ⟨_, h⟩ <;> simp [h]
    rw [List.flatMap_cons, List.length_append, List.length_cons]
    omega

theorem readString_basic {rest : List Char} (hrest : rest.head? ≠ some '"') (cs : List Char) :
    readString (basic cs ++ rest) = .ok (String.ofList cs, rest) := by
  have hwhole : basic cs ++ rest = '"' :: (cs.flatMap escapeBasic ++ '"' :: rest) := by simp [basic]
  have hfuel : cs.length < ('"' :: (cs.flatMap escapeBasic ++ '"' :: rest)).length + 1 := by
    have hle := length_le_escaped cs
    rw [List.length_cons, List.length_append]
    omega
  have hread := readBasic_escaped cs rest hfuel []
  -- An empty string is followed by its closing quote, but by no third one.
  have hthree : ∀ more, cs.flatMap escapeBasic ++ '"' :: rest ≠ '"' :: '"' :: more := by
    intro more heq
    cases cs with
    | nil => exact hrest (by rw [(List.cons.inj heq).2, List.head?_cons])
    | cons c cs =>
      rw [List.flatMap_cons, List.append_assoc] at heq
      rcases escapeBasic_read c with ⟨hself, hquote, -⟩ | ⟨d, code, hescape, -⟩
      · rw [hself] at heq
        exact hquote (List.cons.inj heq).1
      · rw [hescape] at heq
        exact absurd (List.cons.inj heq).1 (by decide)
  rw [hwhole]
  unfold readString
  split
  · rename_i heq
    exact absurd (List.cons.inj heq).2 (hthree _)
  · rename_i heq
    cases heq
  · rename_i heq
    obtain ⟨-, rfl⟩ := List.cons.inj heq
    exact hread
  · rename_i heq
    cases heq
  · rename_i hother _
    exact absurd rfl (hother _)

theorem readString_literal (hne : cs ≠ []) (hvisible : ∀ c ∈ cs, isVisible c = true) (hquote : '\'' ∉ cs)
    (rest : List Char) : readString (literal cs ++ rest) = .ok (String.ofList cs, rest) := by
  have hread := readLiteral_literal hvisible hquote rest
  have hwhole : literal cs ++ rest = '\'' :: (cs ++ '\'' :: rest) := by simp [literal]
  rw [hwhole]
  unfold readString
  split
  · rename_i heq
    cases heq
  · rename_i heq
    obtain ⟨c, cs, rfl⟩ := List.exists_cons_of_ne_nil hne
    exact absurd (List.cons.inj (List.cons.inj heq).2).1 (fun h => hquote (h ▸ List.mem_cons_self))
  · rename_i heq
    cases heq
  · rename_i heq
    obtain ⟨-, rfl⟩ := List.cons.inj heq
    exact hread
  · rename_i hother
    exact absurd rfl (hother _)

theorem le_longestRunFrom (c : Char) (run : Nat) (cs : List Char) : run ≤ Text.longestRunFrom c run cs := by
  induction cs generalizing run with
  | nil => exact Nat.le_refl run
  | cons d cs ih =>
    rw [Text.longestRunFrom]
    split_ifs
    · exact Nat.le_of_succ_le (ih (run + 1))
    · exact Nat.le_max_left ..

theorem pos_longestRunFrom (h : c ∈ cs) (run : Nat) : 0 < Text.longestRunFrom c run cs := by
  induction cs generalizing run with
  | nil => cases h
  | cons d cs ih =>
    rw [Text.longestRunFrom]
    split_ifs with hd
    · exact Nat.lt_of_succ_le ((Nat.succ_le_succ (Nat.zero_le run)).trans (le_longestRunFrom c (run + 1) cs))
    · have hmem := (List.mem_cons.mp h).resolve_left (Ne.symm hd)
      exact Nat.lt_of_lt_of_le (ih hmem 0) (Nat.le_max_right _ _)

/-- **Strings.** A string is read as it was, in whatever style it is written. -/
theorem readString_printString (s : String) {rest : List Char} (hquote : rest.head? ≠ some '"')
    (hapostrophe : rest.head? ≠ some '\'') : readString ((printString s).toList ++ rest) = .ok (s, rest) := by
  have hbasic := readString_basic hquote s.toList
  have hescaped : readString (multiline '"' s.toList (escapeMultiline 0 s.toList) ++ rest) =
      .ok (String.ofList s.toList, rest) := by
    refine readString_multiline (.inl rfl) (inside_escapeMultiline (Nat.zero_le 2) s.toList) ?_ hquote
    intro hfeed c hc
    by_contra hend
    exact hfeed (isLineEnd_of_mem_escapeMultiline hc (by simpa using hend)).2
  have hvisible : s.toList.any isControl = false → s.toList.contains '\n' = false →
      ∀ c ∈ s.toList, isVisible c = true := by
    intro hcontrol hfeed c hc
    refine isVisible_of_not_control (by simpa using List.any_eq_false.mp hcontrol c hc) ?_
    rintro rfl
    simp [hc] at hfeed
  rw [String.ofList_toList] at hbasic hescaped
  simp only [printString, String.toList_ofList]
  split_ifs with hplain hliteral hshort hraw hfeed
  · exact hbasic
  · simp only [Bool.and_eq_true, Bool.not_eq_true', decide_eq_true_eq] at hliteral
    obtain ⟨⟨hcontrol, hfeed⟩, hnone⟩ := hliteral
    have hquote : '\'' ∉ s.toList := fun hmem => Nat.ne_of_gt (pos_longestRunFrom hmem 0) hnone
    have hne : s.toList ≠ [] := by
      intro hnil
      simp [hnil, Text.longestRun, Text.longestRunFrom] at hplain
    have hread := readString_literal hne (hvisible hcontrol hfeed) hquote rest
    rwa [String.ofList_toList] at hread
  · exact hescaped
  · simp only [Bool.and_eq_true, Bool.not_eq_true', decide_eq_true_eq] at hraw
    obtain ⟨hcontrol, hruns⟩ := hraw
    have hrun : Text.longestRunFrom '\'' 0 s.toList ≤ 2 := hruns
    have hinside : Inside '\'' s.toList s.toList := inside_literal hcontrol hrun
    have hread := readString_multiline (.inr rfl) hinside (oneLine_of_no_control hcontrol) hapostrophe
    rwa [String.ofList_toList] at hread
  · exact hescaped
  · exact hbasic

-- ---------------------------------------------------------------------------
-- Keys
-- ---------------------------------------------------------------------------

theorem readKeyPart_basic (cs rest : List Char) :
    readKeyPart (basic cs ++ rest) = .ok (String.ofList cs, rest) := by
  have hwhole : basic cs ++ rest = '"' :: (cs.flatMap escapeBasic ++ '"' :: rest) := by simp [basic]
  have hle := length_le_escaped cs
  rw [hwhole, readKeyPart]
  refine readBasic_escaped cs rest ?_ []
  rw [List.length_append]
  omega

theorem readKeyPart_bare (hne : cs ≠ []) (hbare : ∀ c ∈ cs, isBareKeyChar c = true) {rest : List Char}
    (hrest : rest.head?.all (!isBareKeyChar ·) = true) :
    readKeyPart (cs ++ rest) = .ok (String.ofList cs, rest) := by
  have htake : (cs ++ rest).takeWhile isBareKeyChar = cs := by
    rw [List.takeWhile_append_of_pos hbare]
    cases rest with
    | nil => simp
    | cons d rest => simp [show isBareKeyChar d = false by simpa using hrest]
  obtain ⟨c, more, rfl⟩ := List.exists_cons_of_ne_nil hne
  have hc := hbare c List.mem_cons_self
  unfold readKeyPart
  split
  · rename_i heq
    rw [(List.cons.inj heq).1] at hc
    cases hc
  · rename_i heq
    rw [(List.cons.inj heq).1] at hc
    cases hc
  · simp only [htake, List.isEmpty_cons, Bool.false_eq_true, if_false, List.drop_left]

/-- **Keys.** A key is read as it was, bare or in quotes. -/
theorem readKeyPart_printKey (key : String) {rest : List Char}
    (hrest : rest.head?.all (!isBareKeyChar ·) = true) :
    readKeyPart ((printKey key).toList ++ rest) = .ok (key, rest) := by
  have hbasic := readKeyPart_basic key.toList rest
  rw [String.ofList_toList] at hbasic
  simp only [printKey]
  split_ifs with hbare hplain hliteral
  · rw [Bool.and_eq_true, Bool.not_eq_true', List.isEmpty_eq_false_iff, List.all_eq_true] at hbare
    have hread := readKeyPart_bare hbare.1 hbare.2 hrest
    rwa [String.ofList_toList] at hread
  · rw [String.toList_ofList]
    exact hbasic
  · rw [String.toList_ofList]
    simp only [Bool.and_eq_true, Bool.not_eq_true', List.any_eq_false, Bool.or_eq_true, decide_eq_true_eq,
      not_or] at hliteral
    obtain ⟨hspecial, hquote⟩ := hliteral
    have hvisible : ∀ c ∈ key.toList, isVisible c = true := fun c hc =>
      isVisible_of_not_control (by simpa using (hspecial c hc).1) (hspecial c hc).2
    have hread := readLiteral_literal hvisible (by simpa using hquote) rest
    have hwhole : literal key.toList ++ rest = '\'' :: (key.toList ++ '\'' :: rest) := by simp [literal]
    rw [String.ofList_toList] at hread
    rw [hwhole, readKeyPart]
    exact hread
  · rw [String.toList_ofList]
    exact hbasic

end Literate.Toml
