import Literate.Proofs.Markdown.FencedCode
import Literate.Markdown.Part

/-!
# Lines in containers

A line stands in containers behind what each of them puts in front: a quote its mark, an item the
columns that its content is indented by (`nestedLine`). A line that is empty stays so in an item, and in a
quote keeps nothing but the mark. Such a line is followed through all its containers to what stands in
them (`leads_nested`). What follows a block is the end of the text, a line that is empty in some of the
containers of the block, or the next item of a list around it (`Ends`); no paragraph goes on there.

Main results:

* `carries_nested`, `enters_marks`: literal text and text are read out of their containers.
* `stops_of_ends`: what follows a block in containers ends the paragraph above it.
-/

namespace Literate.Markdown

/-- A line with the mark of a quote in front. -/
def quotedLine (line : List Char) : List Char :=
  if line.isEmpty then ['>'] else '>' :: ' ' :: line

/-- A line of an item below the line of its marker. -/
def indentedLine (indent : Nat) (line : List Char) : List Char :=
  if line.isEmpty then [] else List.replicate indent ' ' ++ line

/-- A line as it stands in containers, outermost first. -/
def nestedLine : List Container → List Char → List Char
  | [], line => line
  | .quote :: containers, line => quotedLine (nestedLine containers line)
  | .item indent :: containers, line => indentedLine indent (nestedLine containers line)
  | .list .. :: containers, line => nestedLine containers line

/-- What containers put in front of a line that is not empty. -/
def marksOf : List Container → List Char
  | [] => []
  | .quote :: containers => '>' :: ' ' :: marksOf containers
  | .item indent :: containers => List.replicate indent ' ' ++ marksOf containers
  | .list .. :: containers => marksOf containers

theorem nestedLine_append (outer inner : List Container) (line : List Char) :
    nestedLine (outer ++ inner) line = nestedLine outer (nestedLine inner line) := by
  induction outer with
  | nil => rfl
  | cons container outer ih => cases container <;> simp [nestedLine, ih]

theorem nestedLine_of_ne_nil {line : List Char} (h : line ≠ []) (containers : List Container) :
    nestedLine containers line = marksOf containers ++ line := by
  induction containers with
  | nil => rfl
  | cons container containers ih =>
    have hne : (marksOf containers ++ line).isEmpty = false := by simp [h]
    cases container with
    | quote => simp only [nestedLine, ih, quotedLine, hne, marksOf]; simp
    | item indent => simp only [nestedLine, ih, indentedLine, hne, marksOf]; simp
    | list tight mark number => exact ih

/-- The container without saying whether it is a tight list. -/
def Container.loosened : Container → Container
  | .list _ mark number => .list false mark number
  | container => container

theorem nestedLine_loosened (containers : List Container) (line : List Char) :
    nestedLine (containers.map Container.loosened) line = nestedLine containers line := by
  induction containers with
  | nil => rfl
  | cons container containers ih =>
    cases container <;> simp only [List.map_cons, Container.loosened, nestedLine, ih]

/-- Whether lists are tight makes no difference to the lines in them. -/
theorem nestedLine_congr {containers others : List Container}
    (h : others.map Container.loosened = containers.map Container.loosened) (line : List Char) :
    nestedLine others line = nestedLine containers line := by
  rw [← nestedLine_loosened others, h, nestedLine_loosened]

-- ---------------------------------------------------------------------------
-- Going on
-- ---------------------------------------------------------------------------

/-- A line with `front` before `rest` goes on in the containers, and `rest` is what stands in them. -/
def Leads (containers : List Container) (front rest : List Char) : Prop :=
  ∀ taken column, ∃ column', ∀ more,
    enter ⟨front ++ rest, taken, column, 0⟩ (containers ++ more) =
      ((enter ⟨rest, front.reverse ++ taken, column', 0⟩ more).1,
        (enter ⟨rest, front.reverse ++ taken, column', 0⟩ more).2 + containers.length)

theorem leads_nil (rest : List Char) : Leads [] [] rest :=
  fun _ column => ⟨column, fun _ => rfl⟩

theorem Leads.append {outer inner : List Container} {front next rest : List Char}
    (h : Leads outer front (next ++ rest)) (hinner : Leads inner next rest) :
    Leads (outer ++ inner) (front ++ next) rest := by
  intro taken column
  obtain ⟨column, hstep⟩ := h taken column
  obtain ⟨column', hrest⟩ := hinner (front.reverse ++ taken) column
  refine ⟨column', fun more => ?_⟩
  rw [List.append_assoc, List.append_assoc, hstep, hrest, List.reverse_append, List.append_assoc,
    List.length_append]
  refine Prod.ext rfl ?_
  show _ + inner.length + outer.length = _ + (outer.length + inner.length)
  omega

theorem overQuote?_mark (rest taken : List Char) (column : Nat) :
    Cursor.overQuote? ⟨'>' :: ' ' :: rest, taken, column, 0⟩ =
      some ⟨rest, ' ' :: '>' :: taken, column + 2, 0⟩ := by
  cases rest <;> simp [Cursor.overQuote?, Cursor.step, Cursor.skip, Cursor.skipBlanks]

theorem AtEnd.skip {rest : List Char} (h : AtEnd rest) (taken : List Char) (column n : Nat) :
    (Cursor.mk rest taken column 0).skip n = (⟨rest, taken, column, 0⟩, n) := by
  rcases h with rfl | ⟨below, rfl⟩
  · simp [Cursor.skip, Cursor.skipBlanks]
  · rcases Nat.eq_zero_or_pos n with rfl | hpos
    · rfl
    · exact skip_of_not_isGap rfl below taken column (by omega)

theorem AtEnd.atLineEnd {rest : List Char} (h : AtEnd rest) : atLineEnd rest = true := by
  rcases h with rfl | ⟨below, rfl⟩ <;> rfl

theorem leads_quote (rest : List Char) : Leads [.quote] ['>', ' '] rest := by
  intro taken column
  refine ⟨column + 2, fun more => ?_⟩
  have hskip := skip_of_not_isGap (c := '>') rfl (' ' :: rest) taken column (n := 3) (by omega)
  simp [enter, hskip, overQuote?_mark]

theorem leads_bareQuote {rest : List Char} (h : AtEnd rest) : Leads [.quote] ['>'] rest := by
  intro taken column
  refine ⟨column + 1, fun more => ?_⟩
  have hskip := skip_of_not_isGap (c := '>') rfl rest taken column (n := 3) (by omega)
  have hover : Cursor.overQuote? ⟨'>' :: rest, taken, column, 0⟩ =
      some ⟨rest, '>' :: taken, column + 1, 0⟩ := by
    rcases h with rfl | ⟨below, rfl⟩ <;>
      simp [Cursor.overQuote?, Cursor.step, Cursor.skip, Cursor.skipBlanks]
  simp [enter, hskip, hover]

theorem skip_spaces (n : Nat) (rest taken : List Char) (column : Nat) :
    (Cursor.mk (List.replicate n ' ' ++ rest) taken column 0).skip n =
      (⟨rest, List.replicate n ' ' ++ taken, column + n, 0⟩, 0) := by
  have hblanks : ∀ taken column, Cursor.skipBlanks taken column 0 n (List.replicate n ' ' ++ rest) =
      (⟨rest, List.replicate n ' ' ++ taken, column + n, 0⟩, 0) := by
    induction n with
    | zero => intro taken column; cases rest <;> simp [Cursor.skipBlanks]
    | succ n ih =>
      intro taken column
      have htaken : List.replicate n ' ' ++ ' ' :: taken = ' ' :: (List.replicate n ' ' ++ taken) := by
        rw [← List.cons_append, ← List.replicate_succ, List.replicate_succ', List.append_assoc]
        rfl
      simp [List.replicate_succ, Cursor.skipBlanks, ih, htaken]
      omega
  simpa [Cursor.skip] using hblanks taken column

theorem leads_item (indent : Nat) (rest : List Char) :
    Leads [.item indent] (List.replicate indent ' ') rest := by
  intro taken column
  refine ⟨column + indent, fun more => ?_⟩
  simp [enter, skip_spaces]

/-- An item goes on at the end of a line. -/
theorem leads_blankItem (indent : Nat) {rest : List Char} (h : AtEnd rest) : Leads [.item indent] [] rest := by
  intro taken column
  refine ⟨column, fun more => ?_⟩
  simp [enter, h.skip, h.atLineEnd]

theorem leads_list (tight : Bool) (mark : Char) (number : Nat) (rest : List Char) :
    Leads [.list tight mark number] [] rest :=
  fun _ column => ⟨column, fun _ => rfl⟩

/-- A line goes on in the containers whose marks it has. -/
theorem leads_marks (containers : List Container) (rest : List Char) :
    Leads containers (marksOf containers) rest := by
  induction containers with
  | nil => exact leads_nil rest
  | cons container containers ih =>
    cases container with
    | quote => exact (leads_quote _).append ih
    | item indent => exact (leads_item indent _).append ih
    | list tight mark number => exact (leads_list tight mark number _).append ih

/-- A line that is empty in containers goes on in them. -/
theorem leads_blank (containers : List Container) {rest : List Char} (h : AtEnd rest) :
    Leads containers (nestedLine containers []) rest := by
  induction containers with
  | nil => exact leads_nil _
  | cons container containers ih =>
    cases container with
    | quote =>
      rw [nestedLine, quotedLine]
      split
      · rename_i hnil
        rw [List.isEmpty_iff.1 hnil] at ih
        exact (leads_bareQuote h).append ih
      · exact (leads_quote _).append ih
    | item indent =>
      rw [nestedLine, indentedLine]
      split
      · rename_i hnil
        rw [List.isEmpty_iff.1 hnil] at ih
        exact (leads_blankItem indent h).append ih
      · exact (leads_item indent _).append ih
    | list tight mark number => exact (leads_list tight mark number _).append ih

/-- A line is followed through the containers that it stands in. -/
theorem leads_nested (containers : List Container) (line : List Char) {rest : List Char} (h : AtEnd rest) :
    ∃ front, nestedLine containers line = front ++ line ∧
      Leads containers front (line ++ rest) := by
  cases line with
  | nil => exact ⟨_, (List.append_nil _).symm, leads_blank containers h⟩
  | cons c line =>
    exact ⟨_, nestedLine_of_ne_nil (List.cons_ne_nil c line) containers, leads_marks containers _⟩

/-- The cursor behind the marks of all containers that a line stands in. -/
theorem enter_nested (containers : List Container) (line : List Char) {rest : List Char} (h : AtEnd rest) :
    ∃ taken column, ∀ more, enter (.ofLine (nestedLine containers line ++ rest)) (containers ++ more) =
      ((enter ⟨line ++ rest, taken, column, 0⟩ more).1,
        (enter ⟨line ++ rest, taken, column, 0⟩ more).2 + containers.length) := by
  obtain ⟨front, hfront, hleads⟩ := leads_nested containers line h
  obtain ⟨column, henter⟩ := hleads [] 0
  rw [hfront, List.append_assoc]
  exact ⟨_, column, henter⟩

/-- The marks of containers are a margin that a paragraph in them can have. -/
theorem enters_marks (containers : List Container) : Enters containers (marksOf containers) := by
  intro rest
  obtain ⟨column, henter⟩ := leads_marks containers rest [] 0
  have hall := henter []
  rw [List.append_nil, List.append_nil] at hall
  refine ⟨column, ?_⟩
  rw [Cursor.ofLine, hall]
  simp [enter]

/-- Literal text is carried by the containers that it stands in. -/
theorem carries_nested (containers : List Container) : Carries containers (nestedLine containers) := by
  intro line rest hrest
  obtain ⟨taken, column, henter⟩ := enter_nested containers line hrest
  have hall := henter []
  rw [List.append_nil] at hall
  refine ⟨taken, column, ?_⟩
  rw [enterAll?, hall]
  simp [enter]

-- ---------------------------------------------------------------------------
-- Ending
-- ---------------------------------------------------------------------------

def Container.isQuote : Container → Bool
  | .quote => true
  | _ => false

/-- How many containers the end of a line goes on in: those up to the first quote. -/
def openAtEnd (containers : List Container) : Nat :=
  (containers.takeWhile fun container => !container.isQuote).length

theorem AtEnd.enter {rest : List Char} (h : AtEnd rest) (taken : List Char) (column : Nat)
    (containers : List Container) :
    enter ⟨rest, taken, column, 0⟩ containers =
      (⟨rest, taken, column, 0⟩, openAtEnd containers) := by
  induction containers with
  | nil => rfl
  | cons container containers ih =>
    cases container with
    | quote =>
      have hquote : Cursor.overQuote? ⟨rest, taken, column, 0⟩ = none := by
        rcases h with rfl | ⟨below, rfl⟩ <;> rfl
      simp [Markdown.enter, h.skip, hquote, openAtEnd, Container.isQuote]
    | item indent =>
      simp [Markdown.enter, h.skip, h.atLineEnd, ih, openAtEnd, Container.isQuote]
    | list tight mark number => simp [Markdown.enter, ih, openAtEnd, Container.isQuote]

/-- The front of a line that begins neither with a blank nor with its end. -/
def BeginsText (cs : List Char) : Prop :=
  ∃ c rest, cs = c :: rest ∧ isGap c = false ∧ isLineEnd c = false

theorem BeginsText.append {cs : List Char} (h : BeginsText cs) (ds : List Char) :
    BeginsText (cs ++ ds) := by
  obtain ⟨c, rest, rfl, hc⟩ := h
  exact ⟨c, rest ++ ds, rfl, hc⟩

theorem BeginsText.ne_nil {cs : List Char} (h : BeginsText cs) : cs ≠ [] := by
  obtain ⟨c, rest, rfl, -⟩ := h
  exact List.cons_ne_nil c rest

theorem BeginsText.atLineEnd {cs : List Char} (h : BeginsText cs) : atLineEnd cs = false := by
  obtain ⟨c, rest, rfl, -, hend⟩ := h
  simp only [isLineEnd, Bool.or_eq_false_iff, decide_eq_false_iff_not] at hend
  simp [Markdown.atLineEnd, afterLineEnd?, hend]

/-- A line that is not indented does not go on in an item. -/
theorem BeginsText.enter_item {cs : List Char} (h : BeginsText cs) (taken : List Char)
    (column indent : Nat) (containers : List Container) :
    enter ⟨cs, taken, column, 0⟩ (.item (indent + 1) :: containers) =
      (⟨cs, taken, column, 0⟩, 0) := by
  have hend := h.atLineEnd
  obtain ⟨c, rest, rfl, hgap, -⟩ := h
  have hskip := skip_of_not_isGap hgap rest taken column (n := indent + 1) (by omega)
  rw [enter, hskip]
  simp [hend]

/-- The line of a marker, whatever stands below it. -/
structure OpensItem (line : List Char) : Prop where
  begins : BeginsText line
  marker : ∀ rest, ∃ marker behind, Marker.read? (line ++ rest) = some (marker, ' ' :: behind)

/-- What comes behind a block in containers. -/
inductive Ends (containers : List Container) : List Char → Prop where
  | nil : Ends containers []
  /-- A line that is empty in some of the containers. -/
  | blank {outer : List Container} (prefix_outer : outer <+: containers) (rest : List Char) :
      Ends containers (nestedLine outer [] ++ '\n' :: rest)
  /-- The marker of the next item of a list. -/
  | item {outer : List Container} {indent : Nat} (prefix_item : outer ++ [.item (indent + 1)] <+: containers)
      {line : List Char} (opens : OpensItem line) {rest : List Char} (ends : AtEnd rest) :
      Ends containers (nestedLine outer line ++ rest)

theorem Ends.append {containers : List Container} {tail : List Char} (h : Ends containers tail)
    (more : List Container) : Ends (containers ++ more) tail := by
  cases h with
  | nil => exact .nil
  | blank prefix_outer rest => exact .blank (prefix_outer.trans (List.prefix_append ..)) rest
  | item prefix_item opens ends => exact .item (prefix_item.trans (List.prefix_append ..)) opens ends

/-- Whether lists are tight makes no difference to what comes behind a block in them. -/
theorem Ends.congr {containers others : List Container} {tail : List Char} (h : Ends containers tail)
    (hothers : others.map Container.loosened = containers.map Container.loosened) :
    Ends others tail := by
  cases h with
  | nil => exact .nil
  | @blank outer prefix_outer rest =>
    obtain ⟨inner, rfl⟩ := prefix_outer
    rw [List.map_append] at hothers
    obtain ⟨front, back, rfl, hfront, -⟩ := List.map_eq_append_iff.1 hothers
    rw [← nestedLine_congr hfront]
    exact .blank (List.prefix_append ..) rest
  | @item outer indent prefix_item line opens rest ends =>
    obtain ⟨inner, rfl⟩ := prefix_item
    rw [List.append_assoc, List.map_append] at hothers
    obtain ⟨front, back, rfl, hfront, hback⟩ := List.map_eq_append_iff.1 hothers
    obtain ⟨container, back, rfl, hcontainer, -⟩ := List.map_eq_cons_iff.1 hback
    have hitem : container = .item (indent + 1) := by
      cases container with
      | item other => simpa [Container.loosened] using hcontainer
      | _ => simp [Container.loosened] at hcontainer
    have hprefix : front ++ [.item (indent + 1)] <+: front ++ container :: back :=
      ⟨back, by rw [hitem]; simp⟩
    rw [← nestedLine_congr hfront]
    exact .item hprefix opens ends

/-- Behind a block in containers a line ends that goes on in some of them, or an item begins outside of one. -/
theorem Ends.exists_enter {containers : List Container} {tail : List Char} (h : Ends containers tail) :
    ∃ rest taken column n, enter (.ofLine tail) containers = (⟨rest, taken, column, 0⟩, n) ∧
      (AtEnd rest ∨ (n ≠ containers.length ∧ ∃ line below, rest = line ++ below ∧ OpensItem line)) := by
  cases h with
  | nil => exact ⟨[], [], 0, _, AtEnd.enter (.inl rfl) [] 0 containers, .inl (.inl rfl)⟩
  | @blank outer prefix_outer rest =>
    obtain ⟨inner, rfl⟩ := prefix_outer
    have hend : AtEnd ('\n' :: rest) := .inr ⟨rest, rfl⟩
    obtain ⟨taken, column, henter⟩ := enter_nested outer [] hend
    have hall := henter inner
    rw [List.nil_append, hend.enter] at hall
    exact ⟨_, taken, column, _, hall, .inl hend⟩
  | @item outer indent prefix_item line opens rest ends =>
    obtain ⟨inner, rfl⟩ := prefix_item
    obtain ⟨taken, column, henter⟩ := enter_nested outer line ends
    have hall := henter (.item (indent + 1) :: inner)
    rw [(opens.begins.append rest).enter_item, Nat.zero_add] at hall
    rw [List.append_assoc, List.singleton_append]
    exact ⟨_, taken, column, _, hall, .inr ⟨by simp, line, rest, rfl, opens⟩⟩

/-- No paragraph goes on behind a block in its containers. -/
theorem stops_of_ends {containers : List Container} {tail : List Char} (h : Ends containers tail) :
    Stops containers tail := by
  obtain ⟨rest, taken, column, n, henter, hend | ⟨houtside, line, below, rfl, opens⟩⟩ := h.exists_enter
  · have hunderline : underline? rest = none := by rcases hend with rfl | ⟨below, rfl⟩ <;> rfl
    have hskipAll : atLineEnd (Cursor.mk rest taken column 0).skipAll.rest = true := by
      rcases hend with rfl | ⟨below, rfl⟩
      · rfl
      · rw [skipAll_of_not_isGap rfl]
        rfl
    rw [Stops, henter]
    simp only [hend.skip]
    exact ⟨.inr (.inr hunderline), .inr hskipAll⟩
  · obtain ⟨marker, behind, hmarker⟩ := opens.marker below
    -- In which containers the line is read does not matter, as an item interrupts in any.
    have hinterrupts : interrupts containers false (line ++ below) = true := by
      simp [interrupts, interruptsText, itemInterrupts, hmarker]
    obtain ⟨c, cs, hcs, hgap, -⟩ := opens.begins.append below
    have hskip := skip_of_not_isGap hgap cs taken column (n := 4) (by omega)
    rw [← hcs] at hskip
    rw [Stops, henter]
    simp only [hskip]
    refine ⟨.inr (.inl houtside), .inl ⟨by omega, ?_⟩⟩
    rw [decide_eq_false houtside]
    exact hinterrupts

end Literate.Markdown
