import Literate.Document.Replacements
import Literate.Execution.Executor
import Mathlib

/-!
# Coupled computations

Two ways to do one thing are compared by running them side by side. `Coupled Q x y` says that `x` and
`y` have the same effects, one by one, and that their results are related by `Q`: there is a single
computation that gives both results at once.

Rewriting a document is compared at two levels. On one side stand a store and what is kept beside it; on
the other a single mark, the nodes recorded so far for the node around. `Mirrors Q x y s q m` couples
`x`, run on the store `s` with `q` beside it, and `y`, run on the mark `m`.

Main results:

* `Coupled.bind`, `Mirrors.bind`: what is done in steps is coupled step by step.
* `coupled_id`: without effects the results are related, and that is all.
* `Coupled.effect`: coupled computations that may fail give the same error and the same state, or
  related results and the same state.
-/

namespace Literate

/-- Two computations with the same effects and related results. -/
def Coupled {e : Type → Type} [Monad e] {α β : Type} (Q : α → β → Prop) (x : e α) (y : e β) : Prop :=
  ∃ both : e {p : α × β // Q p.1 p.2}, (fun p => p.1.1) <$> both = x ∧ (fun p => p.1.2) <$> both = y

section

variable {e : Type → Type} [Monad e] [LawfulMonad e] {α β γ δ : Type} {Q : α → β → Prop}

namespace Coupled

theorem pure {a : α} {b : β} (h : Q a b) : Coupled Q (Pure.pure a : e α) (Pure.pure b) :=
  ⟨Pure.pure ⟨(a, b), h⟩, map_pure .., map_pure ..⟩

theorem bind {Q' : γ → δ → Prop} {x : e α} {y : e β} {f : α → e γ} {g : β → e δ} (h : Coupled Q x y)
    (hfg : ∀ a b, Q a b → Coupled Q' (f a) (g b)) : Coupled Q' (x >>= f) (y >>= g) := by
  obtain ⟨both, rfl, rfl⟩ := h
  have hrest := fun p : {p : α × β // Q p.1 p.2} => hfg p.1.1 p.1.2 p.2
  refine ⟨both >>= fun p => (hrest p).choose, ?_, ?_⟩
  · rw [map_bind, bind_map_left]
    exact bind_congr fun p => (hrest p).choose_spec.1
  · rw [map_bind, bind_map_left]
    exact bind_congr fun p => (hrest p).choose_spec.2

/-- What is made of the result on the right. -/
theorem map_right {Q' : α → δ → Prop} {x : e α} {y : e β} {g : β → δ} (h : Coupled Q x y)
    (himp : ∀ a b, Q a b → Q' a (g b)) : Coupled Q' x (do return g (← y)) := by
  have hboth := h.bind fun a b hab => pure (e := e) (himp a b hab)
  rwa [bind_pure] at hboth

theorem imp {Q' : α → β → Prop} {x : e α} {y : e β} (h : Coupled Q x y)
    (himp : ∀ a b, Q a b → Q' a b) : Coupled Q' x y := by
  have hboth := h.map_right (g := fun b => b) himp
  rwa [bind_pure] at hboth

/-- Results that are made of the same intermediate result. -/
theorem map_map {Q' : γ → δ → Prop} {z : e α} {f : α → γ} {g : α → δ} (h : ∀ a, Q' (f a) (g a)) :
    Coupled Q' (f <$> z) (g <$> z) :=
  ⟨(fun a => ⟨(f a, g a), h a⟩) <$> z, by rw [Functor.map_map], by rw [Functor.map_map]⟩

end Coupled

-- ---------------------------------------------------------------------------
-- Reading coupled computations
-- ---------------------------------------------------------------------------

/-- Without effects only the results are left. -/
theorem coupled_id {x : Id α} {y : Id β} : Coupled Q x y ↔ Q x.run y.run := by
  constructor
  · rintro ⟨both, rfl, rfl⟩
    exact both.run.2
  · exact fun h => Coupled.pure (e := Id) h

/-- Coupled computations that may fail: both fail with the same error, or both succeed, and the state is
the same afterwards. -/
theorem Coupled.effect {σ : Type} {x : Effect σ α} {y : Effect σ β} (h : Coupled Q x y) (state : σ) :
    (∃ error state', x.run state = (.error error, state') ∧ y.run state = (.error error, state')) ∨
      ∃ a b state', x.run state = (.ok a, state') ∧ y.run state = (.ok b, state') ∧ Q a b := by
  obtain ⟨both, rfl, rfl⟩ := h
  have hmap : ∀ {γ : Type} (f : {p : α × β // Q p.1 p.2} → γ), (f <$> both).run state =
      ((both.run state).1.map f, (both.run state).2) := by
    intro γ f
    show (ExceptT.run (f <$> both)).run state = _
    rw [ExceptT.run_map]
    rfl
  rw [hmap, hmap]
  rcases both.run state with ⟨_ | p, state'⟩
  · exact .inl ⟨_, _, rfl, rfl⟩
  · exact .inr ⟨_, _, _, rfl, rfl, p.2⟩

end

-- ---------------------------------------------------------------------------
-- A store on one side, a mark on the other
-- ---------------------------------------------------------------------------

/-- Nodes recorded for the nearest node around that is no inline. -/
abbrev Mark := Option (List Node)

variable {ρ : Type} {e : Type → Type} [Monad e] {α β γ δ : Type}

/-- A computation on a store couples with one on a mark. `Q` relates the result, the store and what is
kept beside it to the other result and the mark. -/
def Mirrors (Q : α → Store → ρ → β → Mark → Prop) (x : StateT Store (StateT ρ e) α)
    (y : StateT Mark e β) (s : Store) (q : ρ) (m : Mark) : Prop :=
  Coupled (fun p o => Q p.1.1 p.1.2 p.2 o.1 o.2) ((x.run s).run q) (y.run m)

namespace Mirrors

variable [LawfulMonad e] {Q : α → Store → ρ → β → Mark → Prop} {Q' : γ → Store → ρ → δ → Mark → Prop}
  {x : StateT Store (StateT ρ e) α} {y : StateT Mark e β} {s : Store} {q : ρ} {m : Mark}

theorem pure {a : α} {b : β} (h : Q a s q b m) : Mirrors (e := e) Q (Pure.pure a) (Pure.pure b) s q m :=
  Coupled.pure h

theorem bind {f : α → StateT Store (StateT ρ e) γ} {g : β → StateT Mark e δ} (h : Mirrors Q x y s q m)
    (hfg : ∀ a s' q' b m', Q a s' q' b m' → Mirrors Q' (f a) (g b) s' q' m') :
    Mirrors Q' (x >>= f) (y >>= g) s q m := by
  unfold Mirrors
  rw [StateT.run_bind, StateT.run_bind, StateT.run_bind]
  exact Coupled.bind h fun p o hpo => hfg _ _ _ _ _ hpo

theorem imp {Q' : α → Store → ρ → β → Mark → Prop} (h : Mirrors Q x y s q m)
    (himp : ∀ a s' q' b m', Q a s' q' b m' → Q' a s' q' b m') : Mirrors Q' x y s q m :=
  Coupled.imp h fun _ _ hpo => himp _ _ _ _ _ hpo

/-- What is done to the results afterwards. -/
theorem map {f : α → γ} {g : β → δ} (h : Mirrors Q x y s q m)
    (himp : ∀ a s' q' b m', Q a s' q' b m' → Q' (f a) s' q' (g b) m') :
    Mirrors Q' (do return f (← x)) (do return g (← y)) s q m :=
  h.bind fun _ _ _ _ _ hab => pure (himp _ _ _ _ _ hab)

/-- Reading the store. -/
theorem get {f : Store → StateT Store (StateT ρ e) α} (h : Mirrors Q (f s) y s q m) :
    Mirrors Q (MonadState.get >>= f) y s q m := by
  unfold Mirrors at h ⊢
  simpa using h

/-- Changing the store. -/
theorem modifyGet {f : Store → γ × Store} {k : γ → StateT Store (StateT ρ e) α}
    (h : Mirrors Q (k (f s).1) y (f s).2 q m) :
    Mirrors Q (MonadState.modifyGet f >>= k) y s q m := by
  unfold Mirrors at h ⊢
  simpa using h

/-- Changing the store in the end. -/
theorem modify {Q : PUnit → Store → ρ → β → Mark → Prop} {f : Store → Store} {b : β}
    (h : Q ⟨⟩ (f s) q b m) : Mirrors (e := e) Q (modify f) (Pure.pure b) s q m := by
  show Coupled _ (Pure.pure ((PUnit.unit, f s), q)) (Pure.pure (b, m))
  exact Coupled.pure h

/-- An effect on both sides. -/
theorem lift {Q : α → β → Prop} {x : e α} {y : e β} (h : Coupled Q x y) :
    Mirrors (fun a s' q' b m' => Q a b ∧ s = s' ∧ q = q' ∧ m = m')
      (liftM x : StateT Store (StateT ρ e) α) (liftM y : StateT Mark e β) s q m := by
  have hx : ((liftM x : StateT Store (StateT ρ e) α).run s).run q =
      (x >>= fun a => Pure.pure (a, q)) >>= fun p => Pure.pure ((p.1, s), p.2) := rfl
  have hy : (liftM y : StateT Mark e β).run m = y >>= fun b => Pure.pure (b, m) := rfl
  unfold Mirrors
  rw [hx, hy, bind_assoc]
  refine h.bind fun a b hab => ?_
  rw [pure_bind]
  exact .pure ⟨hab, rfl, rfl, rfl⟩

/-- Reading what is kept beside the store. -/
theorem getBeside {k : ρ → StateT Store (StateT ρ e) α} (h : Mirrors Q (k q) y s q m) :
    Mirrors Q (getThe ρ >>= k) y s q m := by
  have hread : ((getThe ρ : StateT Store (StateT ρ e) ρ).run s).run q =
      (Pure.pure (q, q) >>= fun p => Pure.pure ((p.1, s), p.2)) := rfl
  unfold Mirrors at h ⊢
  rw [StateT.run_bind, StateT.run_bind, hread]
  simpa using h

/-- Changing what is kept beside the store. -/
theorem modifyBeside {f : ρ → ρ} {k : PUnit → StateT Store (StateT ρ e) α}
    (h : Mirrors Q (k ⟨⟩) y s (f q) m) : Mirrors Q (modifyThe ρ f >>= k) y s q m := by
  have hrun : ((modifyThe ρ f : StateT Store (StateT ρ e) PUnit).run s).run q =
      (Pure.pure (⟨⟩, f q) >>= fun p => Pure.pure ((p.1, s), p.2)) := rfl
  unfold Mirrors at h ⊢
  rw [StateT.run_bind, StateT.run_bind, hrun]
  simpa using h

/-- Changing the mark. -/
theorem modifyMark {f : Mark → Mark} {k : PUnit → StateT Mark e β} (h : Mirrors Q x (k ⟨⟩) s q (f m)) :
    Mirrors Q x (modifyThe Mark f >>= k) s q m := by
  have hrun : (modifyThe Mark f >>= k).run m =
      (Pure.pure (PUnit.unit, f m) >>= fun p => (k p.1).run p.2 : e (β × Mark)) := rfl
  unfold Mirrors at h ⊢
  rw [hrun, pure_bind]
  exact h

/-- Where the other side does nothing, its result is known. -/
theorem of_pure {x : StateT Store (StateT ρ Id) α} {b : β}
    (h : Mirrors Q x (Pure.pure b) s q m) :
    Mirrors (fun a s' q' b' m' => Q a s' q' b' m' ∧ b' = b ∧ m' = m) x (Pure.pure b) s q m := by
  unfold Mirrors at h ⊢
  rw [coupled_id] at h ⊢
  exact ⟨h, rfl, rfl⟩

end Mirrors

end Literate
