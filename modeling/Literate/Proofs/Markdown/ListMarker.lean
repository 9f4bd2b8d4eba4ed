import Literate.Proofs.Markdown.Scan

/-!
# Markers as they are written

A bullet is written as a hyphen, and a number in decimal with a period behind it; a number has at most
nine digits. A line of bullets can be a rule, but not if anything else than hyphens and blanks stands in it
(`afterRule?_bullet`).
-/

namespace Literate.Markdown

/-- How the marker of an item is written, of a list that has numbers or none. -/
def markerText : Option UInt64 → List Char
  | none => ['-']
  | some number => (toString number.toNat).toList ++ ['.']

/-- The marker of an item. -/
def markerOf : Option UInt64 → Marker
  | none => ⟨'-', 0, 1⟩
  | some number => ⟨'.', number.toNat, (toString number.toNat).toList.length + 1⟩

/-- Whether a number has few enough digits to be read as that of an item. -/
def FitsMarker (start : Option UInt64) : Prop :=
  ∀ number ∈ start, number.toNat < 10 ^ 9

theorem toList_toString (n : Nat) : (toString n).toList = Nat.toDigits 10 n := by
  rw [Nat.toString_eq_repr, Nat.repr_eq_ofList_toDigits, String.toList_ofList]

theorem decimalValue_toString (n : Nat) : decimalValue (toString n).toList = n := by
  rw [toList_toString]
  exact Nat.ofDigitChars_toDigits (by omega) (Nat.le_refl 10)

theorem isDigit_of_mem_toString {n : Nat} {c : Char} (h : c ∈ (toString n).toList) :
    c.isDigit = true := by
  rw [toList_toString] at h
  exact Nat.isDigit_of_mem_toDigits (by omega) (Nat.le_refl 10) h

theorem not_isDigit_facts {c : Char} (h : c.isDigit = true) :
    isGap c = false ∧ isLineEnd c = false ∧ c ≠ '-' ∧ c ≠ '+' ∧ c ≠ '*' := by
  have hother : ∀ d : Char, d.isDigit = false → c ≠ d := by
    rintro d hd rfl
    rw [h] at hd
    cases hd
  refine ⟨?_, ?_, hother '-' (by decide), hother '+' (by decide), hother '*' (by decide)⟩
  · simp [isGap, hother ' ' (by decide), hother '\t' (by decide), hother '\x0B' (by decide),
      hother '\x0C' (by decide)]
  · simp [isLineEnd, hother '\n' (by decide), hother '\r' (by decide)]

theorem writesMarker_number {number : UInt64} (h : number.toNat < 10 ^ 9) :
    WritesMarker (markerText (some number)) (markerOf (some number)) := by
  have hdigits : ∀ c ∈ (toString number.toNat).toList, c.isDigit = true :=
    fun c hc => isDigit_of_mem_toString hc
  have hvalue := decimalValue_toString number.toNat
  have hlength : (toString number.toNat).toList.length ≤ 9 := by
    rw [toList_toString]
    exact (Nat.length_toDigits_le_iff (by omega) (by omega)).2 h
  have hne : (toString number.toNat).toList ≠ [] := by
    rw [toList_toString]
    exact Nat.toDigits_ne_nil
  simp only [markerText, markerOf]
  -- Of the digits only these facts are used.
  generalize (toString number.toNat).toList = digits at hdigits hvalue hlength hne
  obtain ⟨c, cs, rfl⟩ := List.exists_cons_of_ne_nil hne
  obtain ⟨hgap, hend, hdash, hplus, hstar⟩ := not_isDigit_facts (hdigits c (List.mem_cons_self ..))
  refine ⟨⟨c, cs ++ ['.'], rfl, hgap, hend⟩, fun rest => ?_, by simp⟩
  have htake : ((c :: cs) ++ '.' :: rest).takeWhile Char.isDigit = c :: cs := by
    rw [List.takeWhile_append_of_pos hdigits, List.takeWhile_cons_of_neg (by decide), List.append_nil]
  have hdrop : ((c :: cs) ++ '.' :: rest).drop (c :: cs).length = '.' :: rest := List.drop_left
  have hfew : ¬ 9 < (c :: cs).length := by omega
  rw [List.append_assoc, List.singleton_append]
  rw [List.cons_append] at htake hdrop ⊢
  rw [Marker.read?]
  simp only [htake, hdrop, hvalue, hdash, hplus, hstar]
  simp at hfew
  simp
  omega

theorem writesMarker {start : Option UInt64} (h : FitsMarker start) :
    WritesMarker (markerText start) (markerOf start) := by
  cases start with
  | none => exact ⟨⟨'-', [], rfl, rfl, rfl⟩, fun rest => rfl, rfl⟩
  | some number => exact writesMarker_number (h number rfl)

-- ---------------------------------------------------------------------------
-- Rules
-- ---------------------------------------------------------------------------

/-- A line with something else in it than hyphens and blanks. -/
def HasOther (line : List Char) : Prop :=
  ∃ front c back, line = front ++ c :: back ∧ (∀ d ∈ front, d = '-' ∨ d = ' ') ∧ c ≠ '-' ∧
    isGap c = false ∧ isLineEnd c = false

theorem BeginsText.hasOther {line : List Char} (h : BeginsText line) (hdash : line.head? ≠ some '-') :
    HasOther line := by
  obtain ⟨c, rest, rfl, hgap, hend⟩ := h
  refine ⟨[], c, rest, rfl, by simp, ?_, hgap, hend⟩
  simpa using hdash

theorem HasOther.bullet {line : List Char} (h : HasOther line) : HasOther ('-' :: ' ' :: line) := by
  obtain ⟨front, c, back, rfl, hfront, hc⟩ := h
  refine ⟨'-' :: ' ' :: front, c, back, rfl, ?_, hc⟩
  simpa using hfront

/-- A bullet with something else than hyphens behind it is no rule. -/
theorem afterRule?_bullet {line : List Char} (h : HasOther line) (rest : List Char) :
    afterRule? ('-' :: ' ' :: (line ++ rest)) = none := by
  obtain ⟨front, c, back, rfl, hfront, hdash, hgap, hend⟩ := h
  obtain ⟨hspace, htab⟩ := ne_blank_of_isGap hgap
  have htake : ('-' :: ' ' :: (front ++ c :: back ++ rest)).takeWhile
      (fun d => decide (d = '-') || decide (d = ' ') || decide (d = '\t')) = '-' :: ' ' :: front := by
    have hkept : ∀ d ∈ '-' :: ' ' :: front,
        (decide (d = '-') || decide (d = ' ') || decide (d = '\t')) = true := by
      intro d hd
      rcases List.mem_cons.1 hd with rfl | hd
      · rfl
      · rcases List.mem_cons.1 hd with rfl | hd
        · rfl
        · rcases hfront d hd with rfl | rfl <;> rfl
    have hsplit : '-' :: ' ' :: (front ++ c :: back ++ rest) =
        ('-' :: ' ' :: front) ++ c :: (back ++ rest) := by simp
    rw [hsplit, List.takeWhile_append_of_pos hkept,
      List.takeWhile_cons_of_neg (by simp [hdash, hspace, htab]), List.append_nil]
  have hdrop : ('-' :: ' ' :: (front ++ c :: back ++ rest)).drop ('-' :: ' ' :: front).length =
      c :: (back ++ rest) := by simp
  have hline : afterLineEnd? (c :: (back ++ rest)) = none := by
    simp only [isLineEnd, Bool.or_eq_false_iff, decide_eq_false_iff_not] at hend
    simp [afterLineEnd?, hend]
  rw [afterRule?]
  simp only [htake, hdrop, hline]
  simp

end Literate.Markdown
