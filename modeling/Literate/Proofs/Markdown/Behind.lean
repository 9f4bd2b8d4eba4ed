import Literate.Proofs.Markdown.Scan

/-!
# What a reader leaves

Every reader answers with the text behind what it has read, which is the end of the text it was given. This is
shown here for those readers that answer with a text and add no block: line ends, blank lines, columns, and the
definitions of labels. Where no container is open, a definition that goes on over several lines leaves none of
their text out, so that it too ends in the middle of the source (`suffix_readDefinition?`).
-/

namespace Literate.Markdown

variable {cs rest : List Char}

-- ---------------------------------------------------------------------------
-- Lines and columns
-- ---------------------------------------------------------------------------

theorem suffix_afterLineEnd? (h : afterLineEnd? cs = some rest) : rest <:+ cs := by
  unfold afterLineEnd? at h
  split at h
  · cases h
    exact List.suffix_rfl
  · cases h
    exact List.suffix_cons ..
  · cases h
    exact (List.suffix_cons ..).trans (List.suffix_cons ..)
  · cases h
    exact List.suffix_cons ..
  · cases h

theorem suffix_afterBlankLine? (h : afterBlankLine? cs = some rest) : rest <:+ cs :=
  (suffix_afterLineEnd? h).trans (List.dropWhile_suffix _)

theorem suffix_dropBlankLine (cs : List Char) : dropBlankLine cs <:+ cs := by
  rw [dropBlankLine]
  cases hblank : afterBlankLine? cs with
  | none => exact List.suffix_rfl
  | some rest => exact suffix_afterBlankLine? hblank

theorem splitLine_append_self (cs : List Char) : (splitLine cs).1 ++ (splitLine cs).2 = cs := by
  fun_induction splitLine cs with
  | case1 => rfl
  | case2 cs => rfl
  | case3 c cs _ line below heq ih =>
    rw [heq] at ih
    exact congrArg (c :: ·) ih

theorem suffix_splitLine (cs : List Char) : (splitLine cs).2 <:+ cs :=
  ⟨(splitLine cs).1, splitLine_append_self cs⟩

theorem suffix_skipBlanks (taken : List Char) (column pending n : Nat) (cs : List Char) :
    (Cursor.skipBlanks taken column pending n cs).1.rest <:+ cs := by
  fun_induction Cursor.skipBlanks taken column pending n cs with
  | case1 | case2 | case5 => exact List.suffix_rfl
  | case3 | case4 => exact List.IsSuffix.trans (by assumption) (List.suffix_cons ..)

theorem suffix_skip (n : Nat) (c : Cursor) : (c.skip n).1.rest <:+ c.rest :=
  suffix_skipBlanks ..

theorem suffix_skipAll (c : Cursor) : c.skipAll.rest <:+ c.rest :=
  List.drop_suffix ..

-- ---------------------------------------------------------------------------
-- Definitions outside of containers
-- ---------------------------------------------------------------------------

theorem suffix_continueLabel (h : continueLabel [] cs = some rest) : rest <:+ cs := by
  unfold continueLabel at h
  dsimp only at h
  rw [Option.ite_none_left_eq_some] at h
  obtain rfl : cs = rest := Option.some.inj h.2
  exact List.suffix_rfl

theorem suffix_continueDefinition (h : continueDefinition [] cs = some rest) : rest <:+ cs := by
  unfold continueDefinition at h
  dsimp only at h
  rw [Option.ite_none_left_eq_some] at h
  obtain rfl : ((Cursor.ofLine cs).skip 4).1.skipAll.rest = rest := Option.some.inj h.2
  exact (suffix_skipAll _).trans (suffix_skip 4 (.ofLine cs))

theorem suffix_skipDefinitionSpace? {newLine : Bool} (h : skipDefinitionSpace? [] cs = some (rest, newLine)) :
    rest <:+ cs := by
  simp only [skipDefinitionSpace?] at h
  split at h
  · cases h
    exact List.dropWhile_suffix _
  · rename_i below hbelow
    split at h
    · cases h
    · rename_i next hnext
      split at h
      · cases h
      · cases h
        exact (List.dropWhile_suffix _).trans ((suffix_continueDefinition hnext).trans
          ((suffix_afterLineEnd? hbelow).trans (List.dropWhile_suffix _)))

theorem suffix_readPointed? {read text : List Char} (h : Target.readPointed? read cs = some (text, rest)) :
    rest <:+ cs := by
  fun_induction Target.readPointed? read cs with
  | case1 | case3 | case6 => cases h
  | case2 _ c cs _ ih | case4 _ c cs _ _ ih => exact (ih h).trans (List.suffix_append ['\\', c] cs)
  | case5 =>
    cases h
    exact List.suffix_cons ..
  | case7 read c cs _ _ _ ih => exact (ih h).trans (List.suffix_cons c cs)

theorem suffix_readBare? {nest : Nat} {read text : List Char}
    (h : Target.readBare? nest read cs = some (text, rest)) : rest <:+ cs := by
  fun_induction Target.readBare? nest read cs with
  | case1 =>
    cases h
    exact List.suffix_rfl
  | case2 | case5 | case8 | case9 => cases h
  | case3 _ _ c cs _ ih | case6 _ _ c cs _ _ ih => exact (ih h).trans (List.suffix_append ['\\', c] cs)
  | case4 =>
    cases h
    exact List.suffix_cons ..
  | case7 | case11 =>
    cases h
    exact List.suffix_rfl
  | case10 _ _ cs _ _ _ ih | case12 _ _ cs _ _ _ _ ih | case13 _ _ _ cs _ _ _ _ ih =>
    exact (ih h).trans (List.suffix_cons _ cs)

theorem suffix_readDestination? {text : List Char} (h : Target.readDestination? cs = some (text, rest)) :
    rest <:+ cs := by
  unfold Target.readDestination? at h
  split at h
  · exact (suffix_readPointed? h).trans (List.suffix_cons ..)
  · exact suffix_readBare? h

theorem suffix_readDefinitionTitle? {close : Char} {fuel : Nat} {read text : List Char}
    (h : readDefinitionTitle? [] close fuel read cs = some (text, rest)) : rest <:+ cs := by
  fun_induction readDefinitionTitle? [] close fuel read cs with
  | case1 | case2 | case3 | case5 | case7 | case10 => cases h
  | case4 =>
    cases h
    exact List.suffix_cons ..
  | case6 _ _ c cs _ _ _ next hnext _ ih =>
    obtain ⟨below, hbelow, hcontinue⟩ := Option.bind_eq_some_iff.mp hnext
    exact (ih h).trans ((suffix_continueDefinition hcontinue).trans (suffix_afterLineEnd? hbelow))
  | case8 _ _ d cs _ _ _ _ ih => exact (ih h).trans (List.suffix_append ['\\', d] cs)
  | case9 _ _ _ _ _ _ _ _ ih | case11 _ _ _ _ _ _ _ _ ih =>
    exact (ih h).trans (List.suffix_cons ..)

theorem suffix_readDefinitionEnd? {title : List Char} (h : readDefinitionEnd? [] cs = some (title, rest)) :
    rest <:+ cs := by
  unfold readDefinitionEnd? at h
  split at h
  · cases h
    exact List.suffix_rfl
  · rename_i inner newLine hspace
    dsimp only at h
    rw [Option.ite_none_left_eq_some] at h
    obtain ⟨-, h⟩ := h
    split at h
    · rename_i body behind htitle
      have hbehind : behind <:+ inner := by
        cases inner with
        | nil => cases htitle
        | cons c inner =>
          obtain ⟨close, -, hread⟩ := Option.bind_eq_some_iff.mp htitle
          exact (suffix_readDefinitionTitle? hread).trans (List.suffix_cons c inner)
      split at h
      · cases h
        exact hbehind.trans (suffix_skipDefinitionSpace? hspace)
      · rw [Option.ite_none_right_eq_some] at h
        cases h.2
        exact List.suffix_rfl
    · rw [Option.ite_none_right_eq_some] at h
      cases h.2
      exact List.suffix_rfl

theorem suffix_readLabelBody? {continues : List Char → Option (List Char)}
    (hcontinues : ∀ cs rest, continues cs = some rest → rest <:+ cs) {fuel : Nat} {read text : List Char}
    (h : Target.readLabelBody? continues fuel read cs = some (text, rest)) : rest <:+ cs := by
  fun_induction Target.readLabelBody? continues fuel read cs with
  | case1 | case2 | case3 | case5 | case7 | case8 | case10 => cases h
  | case4 =>
    cases h
    exact List.suffix_cons ..
  | case6 _ _ c cs _ _ _ below hbelow next hnext _ ih =>
    exact (ih h).trans ((hcontinues below next hnext).trans (suffix_afterLineEnd? hbelow))
  | case9 _ _ d cs _ _ _ ih => exact (ih h).trans (List.suffix_append ['\\', d] cs)
  | case11 _ _ c cs _ _ _ _ ih => exact (ih h).trans (List.suffix_cons c cs)

theorem suffix_readLabel? {key : List Char} (h : Target.readLabel? (continueLabel []) cs = some (key, rest)) :
    rest <:+ cs := by
  unfold Target.readLabel? at h
  split at h
  · split at h
    · rename_i hbody
      split at h
      · cases h
      · cases h
        exact (suffix_readLabelBody? (fun _ _ => suffix_continueLabel) hbody).trans (List.suffix_cons ..)
    · cases h
  · cases h

theorem suffix_readDefinition? {key : List Char} {target : Target}
    (h : readDefinition? [] cs = some (key, target, rest)) : rest <:+ cs := by
  unfold readDefinition? at h
  split at h
  · rename_i label colon hlabel
    split at h
    · cases h
    · rename_i inner newLine hspace
      split at h
      · cases h
      · rename_i destination behind hdestination
        rw [Option.ite_none_left_eq_some] at h
        obtain ⟨-, h⟩ := h
        split at h
        · rename_i title after hend
          cases h
          exact (suffix_dropBlankLine after).trans ((suffix_readDefinitionEnd? hend).trans
            ((suffix_readDestination? hdestination).trans ((suffix_skipDefinitionSpace? hspace).trans
              ((List.suffix_cons ..).trans (suffix_readLabel? hlabel)))))
        · cases h
  · cases h

end Literate.Markdown
