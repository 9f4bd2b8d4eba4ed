import Literate.Execution.Config
import Literate.Proofs.Execution.Transcript

/-!
# Markers that overlap

Markers are told apart twice, from opposite sides. The reader asks with which of them the bytes of a turn
end, and the shape of a transcript with which of them a line begins, and both ask for the prompt first. For
that it is not enough that the markers differ, which is all that the settings are checked for. A prompt that
the continuation marker ends with is found in every turn that needs more input, and one that the
continuation marker begins with leaves a part of it on the line.

Main results:

* `Markers.reads_continuation_iff`: turns that end with the continuation marker are known as such exactly
  if neither marker ends the other.
* `Transcript.strips_iff`: lines lose the marker in front of them, and no more, exactly if neither marker
  begins the other and both stay on their line.
* `Config.suffices_iff`: both, for settings that pass the check.
-/

namespace Literate

-- ---------------------------------------------------------------------------
-- At the end of a turn
-- ---------------------------------------------------------------------------

namespace Markers

variable {markers : Markers}

/-- Whether neither marker ends the other. -/
def EndApart (markers : Markers) : Prop :=
  ∀ marker other, (markers.text marker).toList <:+ (markers.text other).toList → marker = other

instance (markers : Markers) : Decidable markers.EndApart :=
  inferInstanceAs (Decidable (∀ marker other,
    (markers.text marker).toList <:+ (markers.text other).toList → marker = other))

/-- Whether bytes that end with the continuation marker are always read as a turn that ends so. -/
def ReadsContinuation (markers : Markers) : Prop :=
  ∀ (output : List Char) (readings : List Reading),
    markers.readFrom (Text.Utf8.encode (output ++ markers.continuation.toList)) readings =
      (.ok ⟨String.ofList (output ++ markers.continuation.toList), .continuation⟩, readings)

/-- What a text that ends with the continuation marker is read as. -/
theorem readFrom_continuation (h : markers.Visible) (output : List Char) (readings : List Reading) :
    markers.readFrom (Text.Utf8.encode (output ++ markers.continuation.toList)) readings =
      (.ok ⟨String.ofList (output ++ markers.continuation.toList),
        if markers.prompt.toList <:+ output ++ markers.continuation.toList then .prompt
        else .continuation⟩, readings) := by
  have hends : markers.EndsIn (Text.Utf8.encode (output ++ markers.continuation.toList)) :=
    .inr (Text.Utf8.encode_suffix_iff.mpr (List.suffix_append ..))
  rw [readFrom_of_endsIn h hends, turnOf, Text.Utf8.decodeLossy_encode,
    if_congr Text.Utf8.encode_suffix_iff rfl rfl]

theorem reads_continuation_iff (h : markers.Visible) : markers.ReadsContinuation ↔ markers.EndApart := by
  have hreads : markers.ReadsContinuation ↔
      ∀ output, ¬ markers.prompt.toList <:+ output ++ markers.continuation.toList := by
    constructor
    · intro hreads output hsuffix
      have hread := hreads output []
      rw [readFrom_continuation h, if_pos hsuffix] at hread
      cases hread
    · intro hnot output readings
      rw [readFrom_continuation h, if_neg (hnot output)]
  rw [hreads]
  constructor
  · intro hnot marker other hsuffix
    rcases marker with _ | _ <;> rcases other with _ | _
    · rfl
    · exact absurd hsuffix (hnot [])
    · obtain ⟨output, houtput⟩ := hsuffix
      exact absurd (houtput ▸ List.suffix_rfl) (hnot output)
    · rfl
  · intro hapart output hsuffix
    rcases List.suffix_or_suffix_of_suffix hsuffix (List.suffix_append ..) with hle | hle
    · exact Marker.noConfusion (hapart .prompt .continuation hle)
    · exact Marker.noConfusion (hapart .continuation .prompt hle)

end Markers

-- ---------------------------------------------------------------------------
-- At the start of a line
-- ---------------------------------------------------------------------------

namespace Transcript

variable {markers : Markers}

/-- A line that was typed at a marker, or that was put out. -/
structure Line where
  marker? : Option Marker
  text : String

namespace Line

/-- A line as it stands in a transcript. -/
def written (markers : Markers) (line : Line) : List Char :=
  (line.marker?.elim [] fun marker => (markers.text marker).toList) ++ line.text.toList

/-- Whether there is no line break in a line, and no marker in front of one that was put out. -/
structure Fair (markers : Markers) (line : Line) : Prop where
  notMem_feed : '\n' ∉ line.text.toList
  notMem_return : '\r' ∉ line.text.toList
  unmarked : line.marker? = none → ∀ marker, ¬ (markers.text marker).toList <+: line.text.toList

end Line

/-- Whether what is shown of lines and their markers is always the lines. -/
def Strips (markers : Markers) : Prop :=
  ∀ (lines : List Line) (last : List Char), (∀ line ∈ lines, line.Fair markers) → '\n' ∉ last →
    shape markers true false
        (String.ofList ((lines.flatMap fun line => line.written markers ++ ['\n']) ++ last)) =
      Text.joinLines (lines.map Line.text)

theorem Line.Fair.notMem_written {line : Line} (h : line.Fair markers) {c : Char}
    (hc : c = '\n' ∨ c = '\r') (hmarkers : ∀ marker, c ∉ (markers.text marker).toList) :
    c ∉ line.written markers := by
  have hline : c ∉ line.text.toList := by
    rcases hc with rfl | rfl
    · exact h.notMem_feed
    · exact h.notMem_return
  rw [Line.written]
  intro hmem
  rcases List.mem_append.mp hmem with hmem | hmem
  · rcases hmarker : line.marker? with _ | marker
    · rw [hmarker] at hmem
      exact List.not_mem_nil hmem
    · rw [hmarker] at hmem
      exact hmarkers marker hmem
  · exact hline hmem

/-- Lines are the lines of the transcript in which they are written, if nothing in it breaks a line. -/
theorem linesOf_written (hfeed : ∀ marker, '\n' ∉ (markers.text marker).toList)
    (hreturn : ∀ marker, '\r' ∉ (markers.text marker).toList) {lines : List Line} {last : List Char}
    (hlines : ∀ line ∈ lines, line.Fair markers) (hlast : '\n' ∉ last) :
    linesOf ((lines.flatMap fun line => line.written markers ++ ['\n']) ++ last) =
      lines.map (Line.written markers) := by
  induction lines with
  | nil => exact linesOf_of_notMem hlast
  | cons line lines ih =>
    obtain ⟨hline, hlines⟩ := List.forall_mem_cons.mp hlines
    have hend : (line.written markers).getLast? ≠ some '\r' :=
      fun hreturned => hline.notMem_written (.inr rfl) hreturn (List.mem_of_getLast? hreturned)
    rw [List.flatMap_cons, List.append_assoc, List.append_assoc, List.singleton_append,
      linesOf_append_feed, Text.splitFeeds_of_notMem (hline.notMem_written (.inl rfl) hfeed), ih hlines,
      List.map_singleton, Text.dropReturn_of_getLast? hend, List.map_cons, List.singleton_append]

theorem strip_written (h : markers.Legible) {line : Line} (hline : line.Fair markers) :
    strip markers (line.written markers) = line.text.toList := by
  rcases hmarker : line.marker? with _ | marker
  · have hnone := unmarked?_eq_none_iff.mpr (hline.unmarked hmarker)
    rw [Line.written, hmarker, Option.elim_none, List.nil_append, strip, hnone, Option.getD_none]
  · rw [Line.written, hmarker, Option.elim_some, strip, unmarked?_append h, Option.getD_some]

theorem strips_of_legible (h : markers.Legible) : Strips markers := by
  intro lines last hlines hlast
  have hstripped : lines.map (fun line => String.ofList (strip markers (line.written markers))) =
      lines.map Line.text := by
    refine List.map_congr_left fun line hline => ?_
    rw [strip_written h (hlines line hline), String.ofList_toList]
  rw [shape_stripped, linesOf_written h.notMem_feed h.notMem_return hlines hlast,
    List.map_map, ← hstripped]
  rfl

/-- Where lines are shown without their markers, no marker breaks a line. -/
theorem notMem_feed_of_strips (h : Strips markers) (marker : Marker) :
    '\n' ∉ (markers.text marker).toList := by
  intro hmem
  obtain ⟨before, after, hmarker⟩ := List.append_of_mem hmem
  have hfair : ∀ line ∈ [(⟨some marker, ""⟩ : Line)], line.Fair markers := by
    intro line hline
    rw [List.mem_singleton.mp hline]
    exact ⟨by simp, by simp, by simp⟩
  obtain ⟨first, above, habove⟩ := List.exists_cons_of_ne_nil (Text.splitFeeds_ne_nil before)
  obtain ⟨second, below, hbelow⟩ := List.exists_cons_of_ne_nil (Text.splitFeeds_ne_nil after)
  have hlines : linesOf ((markers.text marker).toList ++ ['\n']) =
      (first :: above ++ second :: below).map Text.dropReturn := by
    rw [hmarker, List.append_assoc, List.cons_append, linesOf_append_feed, linesOf_append_feed, habove,
      hbelow, linesOf_of_notMem List.not_mem_nil, List.append_nil, List.map_append]
  have hshape := h [⟨some marker, ""⟩] [] hfair List.not_mem_nil
  rw [shape_stripped, List.flatMap_singleton, Line.written, Option.elim_some,
    String.toList_empty, List.append_nil, List.append_nil, hlines, List.map_map] at hshape
  rcases above with _ | ⟨third, above⟩
  · exact Text.joinLines_ne_empty _ _ _ hshape
  · exact Text.joinLines_ne_empty _ _ _ hshape

/-- Where lines are shown without their markers, so is each line by itself. -/
theorem strip_of_strips (hreturn : ∀ marker, '\r' ∉ (markers.text marker).toList) (h : Strips markers)
    {line : Line} (hline : line.Fair markers) : strip markers (line.written markers) = line.text.toList := by
  have hlines : ∀ other ∈ [line], other.Fair markers :=
    fun other hother => List.mem_singleton.mp hother ▸ hline
  have hshape := h [line] [] hlines List.not_mem_nil
  rw [shape_stripped, linesOf_written (notMem_feed_of_strips h) hreturn hlines List.not_mem_nil,
    List.map_singleton, List.map_singleton, List.map_singleton, Text.joinLines, Text.joinLines,
    String.intercalate_singleton, String.intercalate_singleton] at hshape
  rw [← hshape, String.toList_ofList]

/-- Where lines are shown without their markers, markers that differ are legible. -/
theorem legible_of_strips (hvisible : markers.Visible) (hne : markers.prompt ≠ markers.continuation)
    (hreturn : ∀ marker, '\r' ∉ (markers.text marker).toList) (h : Strips markers) : markers.Legible := by
  have hfeed := notMem_feed_of_strips h
  have hprompt : ∀ line : List Char, strip markers (markers.prompt.toList ++ line) = line := by
    intro line
    rw [strip, unmarked?_prompt_append, Option.getD_some]
  -- Of a marker that begins the other nothing is left on the line, so the two are the same.
  have hbehind : ¬ markers.prompt.toList <+: markers.continuation.toList := by
    rintro ⟨rest, hrest⟩
    have hfair : Line.Fair markers ⟨some .continuation, ""⟩ := ⟨by simp, by simp, by simp⟩
    have hline := strip_of_strips hreturn h hfair
    have hwritten : Line.written markers ⟨some .continuation, ""⟩ = markers.prompt.toList ++ rest := by
      rw [hrest]
      exact List.append_nil _
    rw [hwritten, hprompt] at hline
    rw [hline] at hrest
    exact hne (String.toList_inj.mp ((List.append_nil _).symm.trans hrest))
  have hbefore : ¬ markers.continuation.toList <+: markers.prompt.toList := by
    rintro ⟨rest, hrest⟩
    have hnone : ∀ c, c ∉ markers.prompt.toList → c ∉ (String.ofList rest).toList := by
      intro c hc hmem
      rw [String.toList_ofList] at hmem
      exact hc (hrest ▸ List.mem_append_right _ hmem)
    have hfair : Line.Fair markers ⟨some .continuation, String.ofList rest⟩ :=
      ⟨hnone _ (hfeed .prompt), hnone _ (hreturn .prompt), by simp⟩
    have hline := strip_of_strips hreturn h hfair
    have hwritten : Line.written markers ⟨some .continuation, String.ofList rest⟩ =
        markers.prompt.toList ++ [] := by
      rw [Line.written, String.toList_ofList, List.append_nil, ← hrest]
      rfl
    rw [hwritten, hprompt, String.toList_ofList] at hline
    rw [← hline] at hrest
    exact hne (String.toList_inj.mp (hrest.symm.trans (List.append_nil _)))
  refine ⟨hvisible, hfeed, hreturn, fun marker other hbegins => ?_⟩
  rcases marker with _ | _ <;> rcases other with _ | _
  · rfl
  · exact absurd hbegins hbehind
  · exact absurd hbegins hbefore
  · rfl

theorem strips_iff (hvisible : markers.Visible) (hne : markers.prompt ≠ markers.continuation)
    (hreturn : ∀ marker, '\r' ∉ (markers.text marker).toList) : Strips markers ↔ markers.Legible :=
  ⟨legible_of_strips hvisible hne hreturn, strips_of_legible⟩

end Transcript

-- ---------------------------------------------------------------------------
-- What settings are checked for
-- ---------------------------------------------------------------------------

namespace Config

variable {config : Config}

/-- What settings that pass the check say of their markers: there is something to see of them, and they
differ. -/
theorem markers_of_validate (h : config.validate = .ok ()) :
    config.markers.Visible ∧ config.markers.prompt ≠ config.markers.continuation := by
  unfold validate at h
  split at h
  · cases h
  split at h
  · cases h
  rename_i hempty
  split at h
  · cases h
  rename_i hne
  rw [Bool.or_eq_true, not_or, Bool.not_eq_true, Bool.not_eq_true] at hempty
  refine ⟨⟨fun hprompt => ?_, fun hcontinuation => ?_⟩, hne⟩
  · exact absurd ((congrArg String.isEmpty hprompt).symm.trans hempty.1) (by decide)
  · exact absurd ((congrArg String.isEmpty hcontinuation).symm.trans hempty.2) (by decide)

/-- Settings that pass the check are good enough for those that rely on them exactly if no marker ends the
other, and none begins the other. -/
theorem suffices_iff (h : config.validate = .ok ()) :
    (config.markers.ReadsContinuation ↔ config.markers.EndApart) ∧
      ((∀ marker, '\r' ∉ (config.markers.text marker).toList) →
        (Transcript.Strips config.markers ↔ config.markers.Legible)) := by
  obtain ⟨hvisible, hne⟩ := markers_of_validate h
  exact ⟨Markers.reads_continuation_iff hvisible, Transcript.strips_iff hvisible hne⟩

/-- The settings that hold unless others are given are good enough. -/
theorem suffices_iff_default :
    default.markers.ReadsContinuation ∧ Transcript.Strips default.markers := by
  obtain ⟨hreads, hstrips⟩ := @suffices_iff default rfl
  exact ⟨hreads.mpr (by decide +kernel), (hstrips (by decide +kernel)).mpr (by decide +kernel)⟩

/-- A prompt that is a part of the continuation marker passes the check. A turn that ends with the
continuation marker is then one that ends with the prompt, and a line is shown with half of its marker. -/
theorem validate_overlapping :
    ({ default with prompt := ">", continuation := ">>" } : Config).validate = .ok () ∧
      Markers.readTurn ⟨">", ">>"⟩ [.bytes (Text.Utf8.encode "x\n>>".toList)] =
        (.ok ⟨"x\n>>", .prompt⟩, []) ∧
      Transcript.shape ⟨">", ">>"⟩ true false ">>x\n>" = ">x" := by
  have hvisible : Markers.Visible ⟨">", ">>"⟩ := ⟨by decide, by decide⟩
  have hread := Markers.readFrom_continuation hvisible "x\n".toList []
  rw [if_pos (by decide +kernel)] at hread
  refine ⟨rfl, ?_, by decide +kernel⟩
  rw [Markers.readTurn,
    Markers.readFrom_bytes hvisible (Markers.not_endsIn_nil hvisible) (by decide +kernel)]
  exact hread

end Config

end Literate
