import Literate.Proofs.Text.BytePlaces
import Literate.Proofs.Text.Lines

/-!
# Carriage returns before line feeds

A text may be taken without the carriage returns that stand before its line feeds (`dropBefore`), line by line
(`dropBefore_line`) or byte by byte (`encode_dropBefore`). The bytes that are left have places in the bytes of the
text (`keptPlaces`), which are behind one another but not next to one another: each of them is as many bytes
further on as there are carriage returns in front that were left out (`eq_add_of_keptPlaces`).
-/

namespace Literate.Text

-- ---------------------------------------------------------------------------
-- Leaving out
-- ---------------------------------------------------------------------------

section

variable {α : Type} [DecidableEq α] {a b : α} {xs ys : List α}

/-- A list without each `a` that stands before a `b`. -/
def dropBefore (a b : α) : List α → List α
  | [] => []
  | x :: xs => if x = a ∧ xs.head? = some b then dropBefore a b xs else x :: dropBefore a b xs

theorem dropBefore_append_of_notMem (h : a ∉ xs) (ys : List α) :
    dropBefore a b (xs ++ ys) = xs ++ dropBefore a b ys := by
  induction xs with
  | nil => rfl
  | cons x xs ih =>
    rw [List.mem_cons, not_or] at h
    rw [List.cons_append, dropBefore, if_neg fun heq => h.1 heq.1.symm, ih h.2, List.cons_append]

end

/-- A line that ends in a line feed is left without a carriage return at its end. -/
theorem dropBefore_line {line : List Char} (h : '\n' ∉ line) (below : List Char) :
    dropBefore '\r' '\n' (line ++ '\n' :: below) = dropReturn line ++ '\n' :: dropBefore '\r' '\n' below := by
  induction line with
  | nil =>
    have hfeed : '\n' ≠ '\r' := by decide
    rw [List.nil_append, dropBefore, if_neg fun heq => hfeed heq.1]
    rfl
  | cons c line ih =>
    rw [List.mem_cons, not_or] at h
    rw [List.cons_append, dropBefore, ih h.2]
    rcases line with _ | ⟨d, line⟩
    · by_cases hc : c = '\r' <;> simp [dropReturn, hc]
    · have hd : d ≠ '\n' := fun heq => h.2 (heq ▸ List.mem_cons_self)
      have hreturn : dropReturn (c :: d :: line) = c :: dropReturn (d :: line) := by
        rw [dropReturn, dropReturn, List.getLast?_cons_cons]
        split <;> rfl
      rw [if_neg fun heq => hd (Option.some.inj heq.2), hreturn, List.cons_append]

/-- A last line without a line feed is left as it is. -/
theorem dropBefore_last {line : List Char} (h : '\n' ∉ line) : dropBefore '\r' '\n' line = line := by
  induction line with
  | nil => rfl
  | cons c line ih =>
    rw [List.mem_cons, not_or] at h
    have hhead : line.head? ≠ some '\n' := fun heq => h.2 (List.mem_of_head? heq)
    rw [dropBefore, if_neg fun heq => hhead heq.2, ih h.2]

namespace Utf8

/-- ASCII characters are left out of a text as their bytes are left out of its bytes. -/
theorem encode_dropBefore {a b : Char} (ha : a.toNat < 128) (hb : b.toNat < 128) (cs : List Char) :
    encode (dropBefore a b cs) = dropBefore a.toUInt8 b.toUInt8 (encode cs) := by
  induction cs with
  | nil => rfl
  | cons c cs ih =>
    rw [encode_cons]
    rcases utf8EncodeChar_cases c with ⟨hc, hbytes⟩ | ⟨hc, -⟩
    · have hsame : (c.toUInt8 = a.toUInt8 ∧ (encode cs).head? = some b.toUInt8) ↔
          c = a ∧ cs.head? = some b := by
        rw [toUInt8_inj hc ha, head?_encode_eq_iff hb]
      rw [hbytes, List.singleton_append, dropBefore, dropBefore, if_congr hsame rfl rfl, ← ih]
      split
      · rfl
      · rw [encode_cons, hbytes, List.singleton_append]
    · have hother : a.toUInt8 ∉ String.utf8EncodeChar c := by
        intro hmem
        have hle := le_of_mem_utf8EncodeChar hc _ hmem
        rw [toNat_toUInt8 ha] at hle
        omega
      have hne : c ≠ a := by
        rintro rfl
        omega
      rw [dropBefore, if_neg fun heq => hne heq.1, encode_cons, ih, dropBefore_append_of_notMem hother]

end Utf8

-- ---------------------------------------------------------------------------
-- Places
-- ---------------------------------------------------------------------------

/-- Whether there is a carriage return at a place, with a line feed behind it. -/
def isReturnAt (bytes : List UInt8) (place : Nat) : Bool :=
  bytes[place]? == some 0x0D && bytes[place + 1]? == some 0x0A

/-- The places from a byte on, without those of carriage returns before line feeds. -/
def keptPlaces (bytes : List UInt8) (offset : Nat) : List Nat :=
  (List.range' offset (bytes.length - offset)).filter fun place => !isReturnAt bytes place

/-- How many carriage returns before line feeds there are between two places. -/
def returnsBetween (bytes : List UInt8) (first last : Nat) : Nat :=
  (List.range' first (last - first)).countP (isReturnAt bytes)

theorem returnsBetween_eq_zero_iff {bytes : List UInt8} {first last : Nat} :
    returnsBetween bytes first last = 0 ↔
      ∀ place, first ≤ place → place < last → isReturnAt bytes place = false := by
  rw [returnsBetween, List.countP_eq_zero]
  simp only [List.mem_range'_1, Bool.not_eq_true, and_imp]
  exact forall_congr' fun place => forall_congr' fun hfirst => by
    rw [show place < first + (last - first) ↔ place < last by omega]

/-- Places that are kept are behind one another. -/
theorem le_of_keptPlaces {bytes : List UInt8} {offset m n first last : Nat} (h : m ≤ n)
    (hfirst : (keptPlaces bytes offset)[m]? = some first) (hlast : (keptPlaces bytes offset)[n]? = some last) :
    first ≤ last := by
  have hsorted : (keptPlaces bytes offset).Pairwise (· < ·) := List.Pairwise.filter _ List.pairwise_lt_range'
  obtain ⟨hm, rfl⟩ := List.getElem?_eq_some_iff.mp hfirst
  obtain ⟨hn, rfl⟩ := List.getElem?_eq_some_iff.mp hlast
  rcases h.eq_or_lt with rfl | hlt
  · exact Nat.le_refl _
  · exact (List.pairwise_iff_getElem.mp hsorted m n hm hn hlt).le

/-- The bytes at the places that are kept are those that are not left out. -/
theorem map_keptPlaces (front back : List UInt8) :
    (keptPlaces (front ++ back) front.length).map ((front ++ back)[·]?) =
      (dropBefore 0x0D 0x0A back).map some := by
  induction back generalizing front with
  | nil => simp [keptPlaces, dropBefore]
  | cons byte back ih =>
    have hplaces : keptPlaces (front ++ byte :: back) front.length =
        (if isReturnAt (front ++ byte :: back) front.length then [] else [front.length]) ++
          keptPlaces (front ++ byte :: back) (front.length + 1) := by
      have hlength : (front ++ byte :: back).length - front.length =
          (front ++ byte :: back).length - (front.length + 1) + 1 := by
        simp only [List.length_append, List.length_cons]
        omega
      rw [keptPlaces, hlength, List.range'_succ, List.filter_cons, keptPlaces]
      cases isReturnAt (front ++ byte :: back) front.length <;> rfl
    have hnext : (front ++ byte :: back)[front.length + 1]? = back.head? := by
      rw [List.getElem?_append_right (Nat.le_add_right _ 1), Nat.add_sub_cancel_left, List.getElem?_cons_succ,
        List.head?_eq_getElem?]
    have hreturn : isReturnAt (front ++ byte :: back) front.length = true ↔
        byte = 0x0D ∧ back.head? = some 0x0A := by
      simp [isReturnAt, hnext]
    have hrest := ih (front ++ [byte])
    rw [List.append_assoc, List.singleton_append, List.length_append, List.length_singleton] at hrest
    rw [hplaces, List.map_append, hrest, dropBefore, if_congr hreturn rfl rfl]
    split <;> simp

/-- The place of a byte that is kept is as far on as it would be with the bytes in front that are left out. -/
theorem eq_add_of_keptPlaces {bytes : List UInt8} {offset n place : Nat}
    (h : (keptPlaces bytes offset)[n]? = some place) :
    place = offset + n + returnsBetween bytes offset place := by
  rw [keptPlaces] at h
  -- The induction is on how many bytes there are from `offset` on.
  generalize bytes.length - offset = count at h
  induction count generalizing offset n with
  | zero => simp at h
  | succ count ih =>
    have hsucc : ∀ {first}, first < place → returnsBetween bytes first place =
        (if isReturnAt bytes first then 1 else 0) + returnsBetween bytes (first + 1) place := by
      intro first hfirst
      have hcount : place - first = place - (first + 1) + 1 := by omega
      rw [returnsBetween, hcount, List.range'_succ, List.countP_cons, Nat.add_comm, returnsBetween]
    have hlater : ∀ {k : Nat},
        ((List.range' (offset + 1) count).filter fun place => !isReturnAt bytes place)[k]? = some place →
          offset < place := by
      intro k hk
      have hmem := (List.mem_filter.mp (List.mem_of_getElem? hk)).1
      exact (List.mem_range'_1.mp hmem).1
    rw [List.range'_succ, List.filter_cons] at h
    -- A place that is kept is one more of those in front, one that is left out is a return more.
    split at h
    · rename_i hkept
      rcases n with _ | n
      · obtain rfl : offset = place := by simpa using h
        simp [returnsBetween]
      · rw [List.getElem?_cons_succ] at h
        have hnext := ih h
        rw [hsucc (hlater h), if_neg (by simpa using hkept)]
        omega
    · rename_i hreturn
      have hnext := ih h
      rw [hsucc (hlater h), if_pos (by simpa using hreturn)]
      omega

end Literate.Text
