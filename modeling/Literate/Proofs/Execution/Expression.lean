import Literate.Proofs.Execution.Transcript

/-!
# The answer to an expression

An expression is sent as one line, and what is wanted of its turn is all that was put out. The last line of
the transcript is left out, as the one that holds the prompt. It may hold more: where an output has no line
feed at its end, the prompt comes right behind it, on the line that the output began. So what is given is
the whole lines of the output, and what stands behind its last line feed is lost.

Main results:

* `Session.run_expression`: the answer is the whole lines of the output, which is all of it exactly if the
  output is whole lines.
-/

namespace Literate

namespace Transcript

variable {markers : Markers} {output : List Char}

/-- The lines of an output and the prompt behind it are the whole lines of the output. -/
theorem linesOf_append_of_notMem {prompt : List Char} (hfeed : '\n' ∉ prompt) (hplain : '\r' ∉ output) :
    linesOf (output ++ prompt) = (Text.splitFeeds output).dropLast := by
  have hreturn : ∀ piece ∈ (Text.splitFeeds output).dropLast, Text.dropReturn piece = piece := by
    intro piece hpiece
    have hwithin := Text.infix_of_mem_splitFeeds (List.mem_of_mem_dropLast hpiece)
    exact Text.dropReturn_of_getLast? fun hlast => hplain (hwithin.subset (List.mem_of_getLast? hlast))
  rw [linesOf, ← List.map_dropLast, Text.dropLast_splitFeeds_append hfeed]
  exact (List.map_congr_left hreturn).trans (List.map_id _)

theorem dropFirstBreak_of_head? (hhead : output.head? ≠ some '\n') (hplain : '\r' ∉ output)
    {prompt : List Char} (hfeed : '\n' ∉ prompt) :
    dropFirstBreak (output ++ prompt) = output ++ prompt := by
  rcases output with _ | ⟨c, output⟩
  · exact dropFirstBreak_of_notMem hfeed
  · have hc : c ≠ '\n' := fun heq => hhead (congrArg some heq)
    have hc' : c ≠ '\r' := fun heq => hplain (heq ▸ List.mem_cons_self ..)
    simp [dropFirstBreak, hc, hc']

end Transcript

namespace Session

variable {session session' : Session} {line output : String} {turn : Turn}

/-- What is given of the output of an expression is its whole lines. -/
theorem run_expression_eq (hfeed : '\n' ∉ session.markers.prompt.toList)
    (hreturn : session.markers.prompt.toList.getLast? ≠ some '\r') (hline : '\n' ∉ line.toList)
    (hunmarked : ∀ marker, ¬ (session.markers.text marker).toList <:+: output.toList)
    (hplain : '\r' ∉ output.toList) (hhead : output.toList.head? ≠ some '\n')
    (hconverse : (converse [line]).run session = (.ok [turn], session'))
    (hturn : turn.text = output ++ session.markers.prompt) :
    (run (.expression line)).run session =
      (.ok (String.ofList (Text.dropFeed (Text.wholePart output.toList))), session') := by
  have hnormal := Indentation.normalize_singleton line
  have hanswered : session.markers.prompt.toList ++ Transcript.answered [line] [turn] =
      (session.markers.prompt.toList ++ line.toList) ++ '\n' ::
        (output.toList ++ session.markers.prompt.toList) := by
    have hbreak : Transcript.dropFirstBreak turn.text.toList =
        output.toList ++ session.markers.prompt.toList := by
      rw [hturn, String.toList_append, Transcript.dropFirstBreak_of_head? hhead hplain hfeed]
    simp [Transcript.answered, hbreak]
  have hsent : '\n' ∉ session.markers.prompt.toList ++ line.toList :=
    fun hmem => (List.mem_append.mp hmem).elim hfeed hline
  have hlines : Transcript.linesOf (session.markers.prompt.toList ++ Transcript.answered [line] [turn]) =
      Text.dropReturn (session.markers.prompt.toList ++ line.toList) ::
        (Text.splitFeeds output.toList).dropLast := by
    rw [hanswered, Transcript.linesOf_append_feed, Text.splitFeeds_of_notMem hsent, List.map_singleton,
      Transcript.linesOf_append_of_notMem hfeed hplain, List.singleton_append]
  -- The line that was sent stands behind the prompt, and no line of the output begins with a marker.
  have hmarked : Transcript.unmarked? session.markers
      (Text.dropReturn (session.markers.prompt.toList ++ line.toList)) ≠ none := by
    intro hnone
    exact Transcript.unmarked?_eq_none_iff.mp hnone .prompt (Text.prefix_dropReturn_append hreturn)
  have hkept : ∀ piece ∈ (Text.splitFeeds output.toList).dropLast,
      (Transcript.unmarked? session.markers piece).isNone = true := by
    intro piece hpiece
    have hwithin := Text.infix_of_mem_splitFeeds (List.mem_of_mem_dropLast hpiece)
    rw [Option.isNone_iff_eq_none, Transcript.unmarked?_eq_none_iff]
    exact fun marker hbegins => hunmarked marker (hbegins.isInfix.trans hwithin)
  have hrun := @run_batch_ok session session' [turn] (.expression line) (by rwa [Batch.expression, hnormal])
  rw [hrun, Batch.expression, hnormal, Transcript.shape_unechoed, hlines,
    List.filter_cons_of_neg (by simpa using hmarked), List.filter_eq_self.mpr hkept,
    Text.joinLines_dropLast]

/-- Of the output of an expression its whole lines are given: all of the output, but for one line feed at
its end, exactly if it has one there or is empty. -/
theorem run_expression (hfeed : '\n' ∉ session.markers.prompt.toList)
    (hreturn : session.markers.prompt.toList.getLast? ≠ some '\r') (hline : '\n' ∉ line.toList)
    (hunmarked : ∀ marker, ¬ (session.markers.text marker).toList <:+: output.toList)
    (hplain : '\r' ∉ output.toList) (hhead : output.toList.head? ≠ some '\n')
    (hconverse : (converse [line]).run session = (.ok [turn], session'))
    (hturn : turn.text = output ++ session.markers.prompt) :
    (run (.expression line)).run session =
        (.ok (String.ofList (Text.dropFeed (Text.wholePart output.toList))), session') ∧
      ((run (.expression line)).run session =
          (.ok (String.ofList (Text.dropFeed output.toList)), session') ↔
        Text.IsWhole output.toList) := by
  have hrun := run_expression_eq hfeed hreturn hline hunmarked hplain hhead hconverse hturn
  refine ⟨hrun, ?_⟩
  rw [hrun, ← Text.dropFeed_wholePart_eq_iff, Prod.mk.injEq, Except.ok.injEq, String.ofList_inj]
  exact and_iff_left rfl

/-- Three lines, the second of them blank. -/
theorem run_expression_lines :
    ∃ session', (run (.expression "show")).run (answering ⟨">>> ", "... "⟩ ["a\n\nb\n>>> "]) =
      (.ok "a\n\nb", session') := by
  obtain ⟨turns, session', hconverse, hturns⟩ := @converse_answering ["show"] ⟨">>> ", "... "⟩
    ["a\n\nb\n>>> "] ⟨by decide, by decide⟩ rfl (by decide +kernel) (by decide +kernel)
  obtain ⟨turn, rfl, hturn⟩ := List.map_eq_singleton_iff.mp hturns
  obtain ⟨-, hwhole⟩ := @run_expression (answering ⟨">>> ", "... "⟩ ["a\n\nb\n>>> "]) session' "show"
    "a\n\nb\n" turn (by decide +kernel) (by decide +kernel) (by decide +kernel) (by decide +kernel)
    (by decide +kernel) (by decide +kernel) hconverse hturn
  exact ⟨session', hwhole.mpr (by decide +kernel)⟩

/-- Not every output is given but for a line feed at its end: of `x`, with the prompt on its line, nothing
is. -/
theorem not_run_expression_unended :
    ¬ ∀ (session session' : Session) (line output : String) (turn : Turn),
      session.markers.Legible → '\n' ∉ line.toList →
      (∀ marker, ¬ (session.markers.text marker).toList <:+: output.toList) →
      '\r' ∉ output.toList → output.toList.head? ≠ some '\n' →
      (converse [line]).run session = (.ok [turn], session') →
      turn.text = output ++ session.markers.prompt →
      (run (.expression line)).run session =
        (.ok (String.ofList (Text.dropFeed output.toList)), session') := by
  intro hall
  obtain ⟨turns, session', hconverse, hturns⟩ := @converse_answering ["show"] ⟨">>> ", "... "⟩
    ["x>>> "] ⟨by decide, by decide⟩ rfl (by decide +kernel) (by decide +kernel)
  obtain ⟨turn, rfl, hturn⟩ := List.map_eq_singleton_iff.mp hturns
  have hrun := @run_expression_eq (answering ⟨">>> ", "... "⟩ ["x>>> "]) session' "show" "x" turn
    (by decide +kernel) (by decide +kernel) (by decide +kernel) (by decide +kernel) (by decide +kernel)
    (by decide +kernel) hconverse hturn
  have hclaim := hall (answering ⟨">>> ", "... "⟩ ["x>>> "]) session' "show" "x" turn (by decide +kernel)
    (by decide +kernel) (by decide +kernel) (by decide +kernel) (by decide +kernel) hconverse hturn
  rw [hrun] at hclaim
  have hanswer := Except.ok.inj (congrArg Prod.fst hclaim)
  exact absurd hanswer (by decide +kernel)

end Session

end Literate
