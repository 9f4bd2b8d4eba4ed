import Literate.Proofs.Execution.Conversation
import Literate.Proofs.Text.Lines

/-!
# From turns to answers

The transcript of a batch is put together before it is taken apart: every turn ends with the marker at
which the next line is sent, so a marker is written in one round and is found at the front of a line of
the next. It is found by its characters alone, in a text that holds lines of both sides. What was sent
always has a marker in front of it, whatever it begins with itself. What was put out must have none, and
must be whole lines, or else the next marker is not at the front of its line.

Main results:

* `Round.linesOf_answered`: the lines of a transcript are those of its rounds, as they look at a terminal.
* `Session.run_rounds`: the answer to a batch, for each of the ways in which it may be shaped.
-/

namespace Literate

theorem Marker.forall_iff {p : Marker → Prop} : (∀ marker, p marker) ↔ p .prompt ∧ p .continuation :=
  ⟨fun h => ⟨h .prompt, h .continuation⟩, fun h marker => by cases marker; exacts [h.1, h.2]⟩

instance {p : Marker → Prop} [DecidablePred p] : Decidable (∀ marker, p marker) :=
  decidable_of_iff' _ Marker.forall_iff

namespace Markers

/-- The text of a marker. -/
def text (markers : Markers) : Marker → String
  | .prompt => markers.prompt
  | .continuation => markers.continuation

/-- Whether a marker shows where a line begins: there is something of it to see, it stays on its line, and
what begins with it does not begin with the other. -/
structure Legible (markers : Markers) : Prop extends Visible markers where
  notMem_feed : ∀ marker, '\n' ∉ (markers.text marker).toList
  notMem_return : ∀ marker, '\r' ∉ (markers.text marker).toList
  apart : ∀ marker other, (markers.text marker).toList <+: (markers.text other).toList → marker = other

instance (markers : Markers) : Decidable markers.Legible :=
  decidable_of_iff
    ((markers.prompt ≠ "" ∧ markers.continuation ≠ "") ∧
      (∀ marker, '\n' ∉ (markers.text marker).toList) ∧
      (∀ marker, '\r' ∉ (markers.text marker).toList) ∧
      ∀ marker other, (markers.text marker).toList <+: (markers.text other).toList → marker = other)
    ⟨fun ⟨⟨hprompt, hcontinuation⟩, hfeed, hreturn, hapart⟩ =>
        ⟨⟨hprompt, hcontinuation⟩, hfeed, hreturn, hapart⟩,
      fun h => ⟨⟨h.prompt_ne, h.continuation_ne⟩, h.notMem_feed, h.notMem_return, h.apart⟩⟩

end Markers

namespace Transcript

open Text (splitFeeds charLines dropReturn IsWhole)

variable {markers : Markers} {cs ds line : List Char}

-- ---------------------------------------------------------------------------
-- Lines of a transcript
-- ---------------------------------------------------------------------------

theorem linesOf_append_feed (cs ds : List Char) :
    linesOf (cs ++ '\n' :: ds) = (splitFeeds cs).map dropReturn ++ linesOf ds := by
  rw [linesOf, Text.splitFeeds_append_feed, List.map_append,
    List.dropLast_append_of_ne_nil (by simp [Text.splitFeeds_ne_nil]), linesOf]

/-- What stands behind the last line feed is no line of a transcript. -/
theorem linesOf_of_notMem (h : '\n' ∉ cs) : linesOf cs = [] := by
  rw [linesOf, Text.splitFeeds_of_notMem h]
  rfl

theorem linesOf_append_of_isWhole (h : IsWhole cs) (ds : List Char) :
    linesOf (cs ++ ds) = charLines cs ++ linesOf ds := by
  rw [linesOf, h.splitFeeds_append, List.map_append,
    List.dropLast_append_of_ne_nil (by simp [Text.splitFeeds_ne_nil]), h.charLines_eq, linesOf]

-- ---------------------------------------------------------------------------
-- Lines with and without a marker
-- ---------------------------------------------------------------------------

theorem unmarked?_eq_none_iff :
    unmarked? markers line = none ↔ ∀ marker, ¬ (markers.text marker).toList <+: line := by
  rw [Marker.forall_iff, Markers.text, Markers.text, unmarked?]
  simp only [List.isPrefixOf_iff_prefix]
  by_cases hprompt : markers.prompt.toList <+: line
  · simp [hprompt]
  · by_cases hcontinuation : markers.continuation.toList <+: line <;> simp [hprompt, hcontinuation]

/-- The prompt is looked for first. -/
theorem unmarked?_prompt_append (markers : Markers) (line : List Char) :
    unmarked? markers (markers.prompt.toList ++ line) = some line := by
  have hprompt : markers.prompt.toList.isPrefixOf (markers.prompt.toList ++ line) = true :=
    List.isPrefixOf_iff_prefix.mpr (List.prefix_append ..)
  rw [unmarked?, if_pos hprompt, ← String.length_toList, List.drop_left]

/-- A line behind a marker is what is left of it without the marker, if no other marker begins it. -/
theorem unmarked?_append (h : markers.Legible) (marker : Marker) (line : List Char) :
    unmarked? markers ((markers.text marker).toList ++ line) = some line := by
  cases marker with
  | prompt => exact unmarked?_prompt_append markers line
  | continuation =>
    have hprompt : ¬ markers.prompt.toList.isPrefixOf (markers.continuation.toList ++ line) = true := by
      intro hbegins
      have hboth := List.isPrefixOf_iff_prefix.mp hbegins
      rcases List.prefix_or_prefix_of_prefix hboth (List.prefix_append ..) with hle | hle
      · exact Marker.noConfusion (h.apart .prompt .continuation hle)
      · exact Marker.noConfusion (h.apart .continuation .prompt hle)
    have hcontinuation :
        markers.continuation.toList.isPrefixOf (markers.continuation.toList ++ line) = true :=
      List.isPrefixOf_iff_prefix.mpr (List.prefix_append ..)
    rw [Markers.text, unmarked?, if_neg hprompt, if_pos hcontinuation, ← String.length_toList,
      List.drop_left]

-- ---------------------------------------------------------------------------
-- Shapes
-- ---------------------------------------------------------------------------

/-- What is left of a line without its marker. -/
def strip (markers : Markers) (line : List Char) : List Char :=
  (unmarked? markers line).getD line

section

variable (markers : Markers) (transcript : List Char)

/-- Without echo the lines without a marker are given. -/
theorem shape_unechoed (repl : Bool) : shape markers false repl (String.ofList transcript) =
    Text.joinLines
      (((linesOf transcript).filter fun line => (unmarked? markers line).isNone).map String.ofList) := by
  rw [shape, Bool.not_false, if_pos rfl, String.toList_ofList]

/-- With echo in a session that is shown as one, all lines are given. -/
theorem shape_shown : shape markers true true (String.ofList transcript) =
    Text.joinLines ((linesOf transcript).map String.ofList) := by
  rw [shape, Bool.not_true, if_neg Bool.false_ne_true, if_pos rfl, String.toList_ofList]

/-- With echo otherwise, all lines are given without their markers. -/
theorem shape_stripped : shape markers true false (String.ofList transcript) =
    Text.joinLines ((linesOf transcript).map fun line => String.ofList (strip markers line)) := by
  rw [shape, Bool.not_true, if_neg Bool.false_ne_true, if_neg Bool.false_ne_true, String.toList_ofList,
    List.map_map]
  rfl

end

-- ---------------------------------------------------------------------------
-- The break in front of an answer
-- ---------------------------------------------------------------------------

/-- What `dropFirstBreak` takes off a text: nothing, or a first line that is empty. -/
theorem dropFirstBreak_cases (cs : List Char) :
    dropFirstBreak cs = cs ∨
      ∃ first, (first = [] ∨ first = ['\r']) ∧ cs = first ++ '\n' :: dropFirstBreak cs := by
  unfold dropFirstBreak
  split
  · exact .inr ⟨['\r'], .inr rfl, rfl⟩
  · exact .inr ⟨[], .inl rfl, rfl⟩
  · exact .inl rfl

theorem dropFirstBreak_of_notMem (h : '\n' ∉ cs) : dropFirstBreak cs = cs := by
  obtain heq | ⟨first, -, hcs⟩ := dropFirstBreak_cases cs
  · exact heq
  · rw [hcs] at h
    exact absurd (List.mem_append_right _ (List.mem_cons_self ..)) h

theorem dropFirstBreak_append (h : IsWhole cs) (hds : '\n' ∉ ds) :
    dropFirstBreak (cs ++ ds) = dropFirstBreak cs ++ ds := by
  rcases cs with _ | ⟨c, cs⟩
  · exact dropFirstBreak_of_notMem hds
  by_cases hfeed : c = '\n'
  · rw [hfeed]
    rfl
  by_cases hreturn : c = '\r'
  · subst hreturn
    -- A whole line does not end in its carriage return.
    rcases cs with _ | ⟨d, cs⟩
    · exact absurd h (by decide)
    by_cases hbreak : d = '\n'
    · rw [hbreak]
      rfl
    · simp [dropFirstBreak, hbreak]
  · simp [dropFirstBreak, hfeed, hreturn]

theorem isWhole_dropFirstBreak (h : IsWhole cs) : IsWhole (dropFirstBreak cs) := by
  obtain heq | ⟨first, -, hcs⟩ := dropFirstBreak_cases cs
  · rwa [heq]
  · rw [hcs] at h
    exact h.of_append_feed

/-- The lines of an answer behind its first break are lines of the answer. -/
theorem mem_splitFeeds_of_dropFirstBreak (h : line ∈ splitFeeds (dropFirstBreak cs)) :
    line ∈ splitFeeds cs := by
  obtain heq | ⟨first, -, hcs⟩ := dropFirstBreak_cases cs
  · rwa [heq] at h
  · rw [hcs, Text.splitFeeds_append_feed]
    exact List.mem_append_right _ h

end Transcript

-- ---------------------------------------------------------------------------
-- Rounds
-- ---------------------------------------------------------------------------

/-- A line that is sent, and what answers it: the output, and the marker behind it. -/
structure Round where
  line : String
  output : String
  marker : Marker

namespace Round

/-- The text of the turn that answers. -/
def turn (markers : Markers) (round : Round) : String :=
  round.output ++ markers.text round.marker

/-- The lines of the output, without the break that ends the line that was sent. -/
def shown (round : Round) : List String :=
  Text.lines (String.ofList (Transcript.dropFirstBreak round.output.toList))

/-- Whether what was sent is a line, and what was put out is whole lines that show no marker. -/
structure Clean (markers : Markers) (round : Round) : Prop where
  line_feed : '\n' ∉ round.line.toList
  line_return : round.line.toList.getLast? ≠ some '\r'
  whole : Text.IsWhole round.output.toList
  unmarked : ∀ line ∈ Text.splitFeeds round.output.toList, ∀ marker,
    ¬ (markers.text marker).toList <+: line

instance (markers : Markers) (round : Round) : Decidable (round.Clean markers) :=
  decidable_of_iff
    ('\n' ∉ round.line.toList ∧ round.line.toList.getLast? ≠ some '\r' ∧
      Text.IsWhole round.output.toList ∧ ∀ line ∈ Text.splitFeeds round.output.toList, ∀ marker,
        ¬ (markers.text marker).toList <+: line)
    ⟨fun ⟨hfeed, hreturn, hwhole, hunmarked⟩ => ⟨hfeed, hreturn, hwhole, hunmarked⟩,
      fun h => ⟨h.line_feed, h.line_return, h.whole, h.unmarked⟩⟩

/-- What rounds look like at a terminal: every line behind the marker at which it was sent. -/
def screen (markers : Markers) (asked : Marker) : List Round → List String
  | [] => []
  | round :: rounds =>
    (markers.text asked ++ round.line) :: round.shown ++ screen markers round.marker rounds

variable {markers : Markers} {round : Round} {rounds : List Round} {turns : List Turn}

theorem map_toList_shown (round : Round) :
    round.shown.map String.toList =
      Text.charLines (Transcript.dropFirstBreak round.output.toList) := by
  rw [shown, Text.lines, String.toList_ofList, List.map_map]
  simp [Function.comp_def]

/-- What was put out shows no marker. -/
theorem Clean.unmarked?_eq_none (h : round.Clean markers) {line : String} (hline : line ∈ round.shown) :
    Transcript.unmarked? markers line.toList = none := by
  have hmem : line.toList ∈ Text.charLines (Transcript.dropFirstBreak round.output.toList) := by
    rw [← map_toList_shown]
    exact List.mem_map_of_mem hline
  rw [(Transcript.isWhole_dropFirstBreak h.whole).charLines_eq] at hmem
  obtain ⟨piece, hpiece, hreturn⟩ := List.mem_map.mp hmem
  rw [Transcript.unmarked?_eq_none_iff]
  intro marker hbegins
  rw [← hreturn] at hbegins
  exact h.unmarked piece
    (Transcript.mem_splitFeeds_of_dropFirstBreak (List.mem_of_mem_dropLast hpiece)) marker
    (hbegins.trans (Text.dropReturn_prefix piece))

/-- A line that was sent is a line of the transcript, behind its marker. -/
theorem Clean.linesOf_sent (h : round.Clean markers) (hmarkers : markers.Legible) (asked : Marker)
    (rest : List Char) :
    Transcript.linesOf ((markers.text asked).toList ++ round.line.toList ++ '\n' :: rest) =
      (markers.text asked ++ round.line).toList :: Transcript.linesOf rest := by
  have hfeed : '\n' ∉ (markers.text asked).toList ++ round.line.toList :=
    fun hmem => (List.mem_append.mp hmem).elim (hmarkers.notMem_feed asked) h.line_feed
  have hreturn : ((markers.text asked).toList ++ round.line.toList).getLast? ≠ some '\r' := by
    intro hlast
    rw [List.getLast?_append] at hlast
    rcases hline : round.line.toList.getLast? with _ | c
    · rw [hline, Option.none_or] at hlast
      exact hmarkers.notMem_return asked (List.mem_of_getLast? hlast)
    · rw [hline, Option.some_or] at hlast
      exact h.line_return (hline.trans hlast)
  rw [Transcript.linesOf_append_feed, Text.splitFeeds_of_notMem hfeed, List.map_singleton,
    Text.dropReturn_of_getLast? hreturn, String.toList_append, List.singleton_append]

/-- The lines of the transcript of some rounds are what the rounds look like. -/
theorem linesOf_answered (hmarkers : markers.Legible) (hclean : ∀ round ∈ rounds, round.Clean markers)
    (hturns : turns.map Turn.text = rounds.map (turn markers)) (asked : Marker) :
    Transcript.linesOf
        ((markers.text asked).toList ++ Transcript.answered (rounds.map Round.line) turns) =
      (screen markers asked rounds).map String.toList := by
  -- The marker that ends the turn of a round stands in front of the line of the next one.
  induction rounds generalizing asked turns with
  | nil =>
    rw [List.map_nil, Transcript.answered, List.zip_nil_left, List.flatMap_nil, List.append_nil,
      Transcript.linesOf_of_notMem (hmarkers.notMem_feed asked)]
    rfl
  | cons round rounds ih =>
    obtain ⟨hround, hrounds⟩ := List.forall_mem_cons.mp hclean
    rcases turns with _ | ⟨first, turns⟩
    · cases hturns
    rw [List.map_cons, List.map_cons, List.cons.injEq] at hturns
    obtain ⟨hfirst, hturns⟩ := hturns
    have hbreak : Transcript.dropFirstBreak first.text.toList =
        Transcript.dropFirstBreak round.output.toList ++ (markers.text round.marker).toList := by
      rw [hfirst, turn, String.toList_append]
      exact Transcript.dropFirstBreak_append hround.whole (hmarkers.notMem_feed _)
    have hanswered : (markers.text asked).toList ++
          Transcript.answered ((round :: rounds).map Round.line) (first :: turns) =
        (markers.text asked).toList ++ round.line.toList ++ '\n' ::
          (Transcript.dropFirstBreak round.output.toList ++ ((markers.text round.marker).toList ++
            Transcript.answered (rounds.map Round.line) turns)) := by
      simp [Transcript.answered, hbreak]
    rw [hanswered, hround.linesOf_sent hmarkers, Transcript.linesOf_append_of_isWhole
      (Transcript.isWhole_dropFirstBreak hround.whole), ih hrounds hturns, ← map_toList_shown, screen]
    simp

/-- Without the lines that begin with a marker, what was put out is left. -/
theorem filter_screen (hmarkers : markers.Legible) (hclean : ∀ round ∈ rounds, round.Clean markers)
    (asked : Marker) :
    (screen markers asked rounds).filter
        (fun line => (Transcript.unmarked? markers line.toList).isNone) =
      rounds.flatMap shown := by
  induction rounds generalizing asked with
  | nil => rfl
  | cons round rounds ih =>
    obtain ⟨hround, hrounds⟩ := List.forall_mem_cons.mp hclean
    have hsent := Transcript.unmarked?_append hmarkers asked round.line.toList
    have hshown : round.shown.filter (fun line => (Transcript.unmarked? markers line.toList).isNone) =
        round.shown :=
      List.filter_eq_self.mpr fun line hline => by rw [hround.unmarked?_eq_none hline]; rfl
    rw [screen, List.cons_append, List.filter_cons_of_neg (by simp [hsent]), List.filter_append, hshown,
      ih hrounds, List.flatMap_cons]

/-- Without the markers in front of them, lines are as they were sent and put out. -/
theorem map_screen (hmarkers : markers.Legible) (hclean : ∀ round ∈ rounds, round.Clean markers)
    (asked : Marker) :
    (screen markers asked rounds).map
        (fun line => String.ofList (Transcript.strip markers line.toList)) =
      rounds.flatMap fun round => round.line :: round.shown := by
  induction rounds generalizing asked with
  | nil => rfl
  | cons round rounds ih =>
    obtain ⟨hround, hrounds⟩ := List.forall_mem_cons.mp hclean
    have hsent : String.ofList (Transcript.strip markers (markers.text asked ++ round.line).toList) =
        round.line := by
      rw [String.toList_append, Transcript.strip, Transcript.unmarked?_append hmarkers, Option.getD_some,
        String.ofList_toList]
    have hshown : ∀ line ∈ round.shown,
        String.ofList (Transcript.strip markers line.toList) = id line := by
      intro line hline
      rw [Transcript.strip, hround.unmarked?_eq_none hline, Option.getD_none, String.ofList_toList, id]
    rw [screen, List.cons_append, List.map_cons, List.map_append, hsent, List.map_congr_left hshown,
      List.map_id, ih hrounds, List.flatMap_cons, List.cons_append]

end Round

-- ---------------------------------------------------------------------------
-- Answers
-- ---------------------------------------------------------------------------

namespace Session

/-- The answer to a batch of lines that are answered by whole lines and a marker each: without echo, what
was put out; with it, what was sent and put out, behind the markers at which it was sent in a session that
is shown as one. -/
theorem run_rounds {session session' : Session} {lines : List String} {rounds : List Round}
    {turns : List Turn} (hmarkers : session.markers.Legible)
    (hlines : Indentation.normalize lines = rounds.map Round.line)
    (hclean : ∀ round ∈ rounds, round.Clean session.markers)
    (hconverse : (converse (rounds.map Round.line)).run session = (.ok turns, session'))
    (hturns : turns.map Turn.text = rounds.map (Round.turn session.markers)) :
    (∀ repl, (run ⟨lines, false, repl⟩).run session =
        (.ok (Text.joinLines (rounds.flatMap Round.shown)), session')) ∧
      (run ⟨lines, true, true⟩).run session =
        (.ok (Text.joinLines (Round.screen session.markers .prompt rounds)), session') ∧
      (run ⟨lines, true, false⟩).run session =
        (.ok (Text.joinLines (rounds.flatMap fun round => round.line :: round.shown)), session') := by
  have hanswer : ∀ echo repl, (run ⟨lines, echo, repl⟩).run session =
      (.ok (Transcript.shape session.markers echo repl (String.ofList
        (session.markers.prompt.toList ++ Transcript.answered (rounds.map Round.line) turns))),
        session') := by
    intro echo repl
    rw [← hlines] at hconverse ⊢
    exact @run_batch_ok session session' turns ⟨lines, echo, repl⟩ hconverse
  have hscreen : Transcript.linesOf (session.markers.prompt.toList ++
        Transcript.answered (rounds.map Round.line) turns) =
      (Round.screen session.markers .prompt rounds).map String.toList :=
    Round.linesOf_answered hmarkers hclean hturns .prompt
  refine ⟨fun repl => ?_, ?_, ?_⟩
  · rw [hanswer, Transcript.shape_unechoed, hscreen, List.filter_map, List.map_map,
      String.ofList_comp_toList, List.map_id, ← Round.filter_screen hmarkers hclean .prompt]
    rfl
  · rw [hanswer, Transcript.shape_shown, hscreen, List.map_map, String.ofList_comp_toList, List.map_id]
  · rw [hanswer, Transcript.shape_stripped, hscreen, List.map_map,
      ← Round.map_screen hmarkers hclean .prompt]
    rfl

/-- A suite that an empty line closes, with blank lines in what it puts out, and then a line that begins
as if it were sent at a prompt. -/
def suite : List Round :=
  [⟨"if a:", "", .continuation⟩, ⟨"    p()", "", .continuation⟩, ⟨"", "\n1\r\n\n2\n", .prompt⟩,
    ⟨">>> a", "x\n", .prompt⟩]

theorem run_rounds_suite :
    ∃ session', (∀ repl, (run ⟨["if a:", "    p()", "", ">>> a"], false, repl⟩).run
          (answering ⟨">>> ", "... "⟩ ["... ", "... ", "\n1\r\n\n2\n>>> ", "x\n>>> "]) =
        (.ok "1\n\n2\nx", session')) ∧
      (run ⟨["if a:", "    p()", "", ">>> a"], true, true⟩).run
          (answering ⟨">>> ", "... "⟩ ["... ", "... ", "\n1\r\n\n2\n>>> ", "x\n>>> "]) =
        (.ok ">>> if a:\n...     p()\n... \n1\n\n2\n>>> >>> a\nx", session') ∧
      (run ⟨["if a:", "    p()", "", ">>> a"], true, false⟩).run
          (answering ⟨">>> ", "... "⟩ ["... ", "... ", "\n1\r\n\n2\n>>> ", "x\n>>> "]) =
        (.ok "if a:\n    p()\n\n1\n\n2\n>>> a\nx", session') := by
  obtain ⟨turns, session', hconverse, hturns⟩ := @converse_answering
    (suite.map Round.line) ⟨">>> ", "... "⟩ (suite.map (Round.turn ⟨">>> ", "... "⟩))
    ⟨by decide, by decide⟩ rfl (by decide +kernel) (by decide +kernel)
  have hrounds := @run_rounds (answering ⟨">>> ", "... "⟩ (suite.map (Round.turn ⟨">>> ", "... "⟩)))
    session' ["if a:", "    p()", "", ">>> a"] suite turns (by decide +kernel) (by decide +kernel)
    (by decide +kernel) hconverse hturns
  have htexts : suite.map (Round.turn ⟨">>> ", "... "⟩) =
      ["... ", "... ", "\n1\r\n\n2\n>>> ", "x\n>>> "] := by
    decide +kernel
  have hshown : Text.joinLines (suite.flatMap Round.shown) = "1\n\n2\nx" := by
    decide +kernel
  have hscreen : Text.joinLines (Round.screen ⟨">>> ", "... "⟩ .prompt suite) =
      ">>> if a:\n...     p()\n... \n1\n\n2\n>>> >>> a\nx" := by
    decide +kernel
  have hechoed : Text.joinLines (suite.flatMap fun round => round.line :: round.shown) =
      "if a:\n    p()\n\n1\n\n2\n>>> a\nx" := by
    decide +kernel
  rw [htexts, hshown, hechoed] at hrounds
  exact ⟨session', hrounds.1, hrounds.2.1.trans (by rw [← hscreen]; rfl), hrounds.2.2⟩

end Session

end Literate
