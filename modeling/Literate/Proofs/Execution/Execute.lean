import Literate.Proofs.Execution.Effect
import Literate.Proofs.Execution.Walk
import Literate.Proofs.Store.Applying
import Literate.Proofs.Store.Reachability

/-!
# Executing a document

The walk over the store of a document, the application of the records and the building of the result
together are the pass over the document. The state between the walk and the application (`Ended`) is
where the two meet: the containers of the store come to the steads of the pass, and all records are for
numbers that can be reached.

Main results:

* `executeUnder_eq_onePass`: executing a document is executing it in one pass.
* `records_put_in`: the records that a walk leaves are for numbers that can be reached, none of which is
  below another, and all of them are put in.
-/

namespace Literate

open Store

variable {σ : Type} {launcher : Launcher σ} {shorthands : List String} {d : Document}

-- ---------------------------------------------------------------------------
-- The end of the walk
-- ---------------------------------------------------------------------------

/-- What holds when all of a store was walked over: its containers come to `steads`. -/
structure Ended (s : Store) (q : Deferred) (steads : List (Slot Stead)) (f : List Nat) : Prop where
  settles : SlotsAlong (Settles s q.waiting) s.root steads f
  nodup : f.Nodup
  follow : Slot.AllFollow Stead.family Document.layout steads
  sound : q.Sound s
  reached : ∀ x : Nat, q.waiting.find? x ≠ none → x ∈ f

theorem Document.family_ne_inline {n : Node} (h : n ∈ d.children.flatMap Slot.toList) :
    n.family ≠ .inline := by
  obtain ⟨slot, hslot, hn⟩ := List.mem_flatMap.mp h
  obtain ⟨place, hplace, hfollows⟩ := d.children_follow.mem hslot
  rw [hfollows.2 n hn]
  simp only [Document.layout, List.mem_cons, List.not_mem_nil, or_false] at hplace
  rcases hplace with rfl | rfl <;> exact Family.noConfusion

/-- The walk comes to the containers of a document first. -/
theorem awaits_ofDocument (d : Document) :
    SlotsAlong (Walk.Awaits ((ofDocument d).size + 1) [] none (ofDocument d) .empty)
      (ofDocument d).root d.children (List.range' 0 (Node.sizeOfSlots d.children)) := by
  have hstored := SlotsAlong.and_right (ofDocument_stored d) fun n hn => d.family_ne_inline hn
  refine SlotsAlong.imp_of_sublist hstored fun id n g hg ⟨hn, hfamily⟩ => ?_
  exact {
    stored := hn
    length_le := by
      have hle := length_le_size_of_nodup ((List.nodup_range' ..).sublist hg) fun x hx =>
        hn.lt_of_mem hx
      omega
    unrecorded := fun _ _ => rfl
    around_lt := fun x hx => by simp at hx
    target_eq := rfl
    bears := fun hinline => absurd hinline hfamily }

theorem ready_ofDocument (d : Document) :
    Ready Walk.records none (List.range' 0 (Node.sizeOfSlots d.children)) (ofDocument d) .empty none where
  nodup := List.nodup_range' ..
  lt x hx := by
    rw [size_ofDocument]
    have := (List.mem_range'_1.mp hx).2
    omega
  target_lt _ hp := by cases hp
  target_not_mem _ hp := by cases hp
  target_find _ hp := by cases hp
  bounded x hx := absurd rfl hx
  holds := Deferred.sound_empty _

/-- The walk over the store of a document has the effects of the pass over the document, and its store
comes to the result of the pass. -/
theorem visitAll_coupled (launcher : Launcher σ) (shorthands : List String) (d : Document) :
    Coupled
      (fun out result => ∃ steads f, Ended out.1 out.2 steads f ∧
        Document.filled (steads.map Slot.fit) = result)
      (Walk.visitAll launcher shorthands (ofDocument d))
      (OnePass.rewriteDocument launcher shorthands d) := by
  have hwalk := rewriteRoot_mirrors
    (Walk.visit_visitor launcher shorthands ((ofDocument d).size + 1) [] none)
    (awaits_ofDocument d) d.children_follow (by simp [Document.layout]) (ready_ofDocument d)
  rw [Walk.visitAll, OnePass.rewriteDocument, OnePass.rewriteSlot_eq, StateT.run'_eq, bind_map_left]
  refine Coupled.bind hwalk ?_
  rintro ⟨⟨_, _⟩, q⟩ ⟨kids, m⟩ ⟨s₁, slots, f, rfl, hstep, hplaced⟩
  have hframe : Frame s₁ q.waiting (s₁.setRoot slots) q.waiting f := frame_setRoot
  obtain ⟨settled, hsettles, hfollow, hfit⟩ := hplaced.of_frame hframe
  refine .pure ⟨settled, f, ?_, by rw [hfit]⟩
  exact {
    settles := hsettles
    nodup := hstep.nodup
    follow := hfollow
    sound := hstep.holds.of_keepsKinds (keepsKinds_setRoot s₁ slots)
    reached := fun x hx => by
      by_cases hmem : x ∈ List.range' 0 (Node.sizeOfSlots d.children)
      · exact (hstep.kept x hmem hx).1
      · exact absurd (hstep.find_eq x hmem (by simp)) hx }

theorem exists_ended {executor executor' : Executor σ} {store : Store} {deferred : Deferred}
    (h : (Walk.visitAll launcher shorthands (ofDocument d)).run executor =
      (.ok (store, deferred), executor')) :
    ∃ steads f, Ended store deferred steads f := by
  obtain ⟨error, _, hwalk, -⟩ | ⟨out, -, _, hwalk, -, steads, f, hended, -⟩ :=
    (visitAll_coupled launcher shorthands d).effect executor
  · rw [h] at hwalk
    cases hwalk
  · rw [h] at hwalk
    obtain rfl : (store, deferred) = out := Except.ok.inj (congrArg Prod.fst hwalk)
    exact ⟨steads, f, hended⟩

-- ---------------------------------------------------------------------------
-- The whole execution
-- ---------------------------------------------------------------------------

/-- Applying the records and building the document gives the result of the pass. -/
theorem Ended.toDocument_eq {s : Store} {q : Deferred} {steads : List (Slot Stead)} {f : List Nat}
    (h : Ended s q steads f) :
    (q.waiting.apply s).toDocument = .ok (Document.filled (steads.map Slot.fit)) :=
  Replacements.toDocument_apply h.settles h.nodup h.follow ⟨h.sound.bears, h.sound.nodup, .refl _⟩
    h.reached

/-- A session of walking, followed by the application of the records, is a session of the pass. -/
theorem session_visitAll (launcher : Launcher σ) (shorthands : List String) (d : Document) :
    (do
      let (store, deferred) ←
        Executor.session launcher (Walk.visitAll launcher shorthands (ofDocument d))
      .ofExcept ((deferred.waiting.apply store).toDocument.mapError .shape)) =
      Executor.session launcher (OnePass.rewriteDocument launcher shorthands d) := by
  funext state
  obtain ⟨error, executor, hwalk, hpass⟩ | ⟨out, result, executor, hwalk, hpass, hended⟩ :=
    (visitAll_coupled launcher shorthands d).effect (.idle state)
  · show (Executor.session launcher _ >>= _ : Effect σ Document).run state =
      (Executor.session launcher (OnePass.rewriteDocument launcher shorthands d)).run state
    rw [Effect.run_bind_error (Executor.run_session_error hwalk), Executor.run_session_error hpass]
  · obtain ⟨steads, f, hended, rfl⟩ := hended
    show (Executor.session launcher _ >>= _ : Effect σ Document).run state =
      (Executor.session launcher (OnePass.rewriteDocument launcher shorthands d)).run state
    rw [Effect.run_bind, Executor.run_session_ok hwalk, Executor.run_session_ok hpass]
    rcases ((Executor.close launcher).run executor).1 with error | ⟨⟩
    · rfl
    · show (Effect.ofExcept ((out.2.waiting.apply out.1).toDocument.mapError .shape)).run _ = _
      rw [hended.toDocument_eq]
      rfl

/-- At the end of a walk nothing is lost but second records for a number; the numbers with a record can
be reached, and none of them is below another. So all records are put in, each of them once. -/
theorem records_put_in {executor executor' : Executor σ} {store : Store} {deferred : Deferred}
    (h : (Walk.visitAll launcher shorthands (ofDocument d)).run executor =
      (.ok (store, deferred), executor')) :
    (∀ loss ∈ deferred.lost, ∃ target nodes,
      loss = .late target nodes ∧ target ∈ deferred.waiting.targets) ∧
    (∀ x ∈ deferred.waiting.targets, store.Reachable x) ∧
    (∀ x ∈ deferred.waiting.targets, ∀ y ∈ deferred.waiting.targets,
      ¬ Relation.TransGen store.Child x y) ∧
    (deferred.waiting.applyAll store).2.left = .empty ∧
    deferred.waiting.targets.Nodup ∧
    deferred.waiting.targets.Perm (deferred.waiting.applyAll store).2.done := by
  obtain ⟨steads, f, hended⟩ := exists_ended h
  have htarget : ∀ x : Nat, x ∈ deferred.waiting.targets → store.Bears x ∧ x ∈ f := by
    intro x hx
    have hfind := Replacements.find?_ne_none.mpr hx
    exact ⟨hended.sound.bears x hfind, hended.reached x hfind⟩
  have happlied := Replacements.applyAll_settled hended.settles hended.nodup hended.follow
    ⟨hended.sound.bears, hended.sound.nodup, .refl _⟩ hended.reached
  refine ⟨?_, ?_, ?_, happlied.left_eq, hended.sound.nodup, happlied.perm⟩
  · -- An orphan would be for an inline with no block or metadata around it.
    intro loss hloss
    obtain ⟨target, nodes, rfl, hfind⟩ := hended.sound.late loss hloss
    exact ⟨target, nodes, rfl, Replacements.find?_ne_none.mp hfind⟩
  · intro x hx
    exact reachable_of_settle hended.settles (htarget x hx).2
  · -- Below a node that bears inlines all is inline, and no inline has a record.
    intro x hx y hy hbelow
    obtain ⟨_, _, _, _, g, _, hsettles, hxg⟩ :=
      (SlotsAlong.toList hended.settles).exists_of_mem_footprint (htarget x hx).2
    obtain ⟨_, _, hx', _⟩ := hsettles.exists_of_mem hxg
    exact (htarget y hy).1.family_ne (hx'.inline_of_transGen (htarget x hx).1 hbelow)

/-- A launcher that gives back the lines that it is to run. -/
def Launcher.echoing : Launcher Unit where
  preflight := .ok ()
  launch := return
  run batch := return String.intercalate "\n" batch.lines
  close := return

/-- A paragraph of two code spans that give way to blocks. -/
def twoSpans : Document where
  metadata := []
  blocks := [.paragraph [.code (.ofClasses ["python", "md"]) "first",
    .code (.ofClasses ["python", "md"]) "second"]]

theorem records_put_in_twoSpans :
    ∃ store deferred executor,
      (Walk.visitAll .echoing [] (ofDocument twoSpans)).run (.idle ()) =
        (.ok (store, deferred), executor) ∧
      deferred.lost.length = 1 ∧ deferred.waiting.targets = [0] ∧ store.Reachable 0 ∧
      (deferred.waiting.applyAll store).2.done = [0] := by
  have hrun : ((Walk.visitAll .echoing [] (ofDocument twoSpans)).run (.idle ())).1.toOption.map
      (fun out => (out.2.lost.length, out.2.waiting.targets)) = some (1, [0]) := by
    cbv
  rcases hwalk : (Walk.visitAll .echoing [] (ofDocument twoSpans)).run (.idle ()) with
    ⟨error | ⟨store, deferred⟩, executor⟩
  · rw [hwalk] at hrun
    cases hrun
  · rw [hwalk] at hrun
    obtain ⟨hlost, htargets⟩ := Prod.mk.inj (Option.some.inj hrun)
    obtain ⟨-, hreachable, -, -, -, hperm⟩ := records_put_in hwalk
    simp only at htargets
    rw [htargets] at hreachable hperm
    exact ⟨store, deferred, executor, rfl, hlost, htargets, hreachable 0 (List.mem_singleton_self 0),
      List.perm_singleton.mp hperm.symm⟩

end Literate
