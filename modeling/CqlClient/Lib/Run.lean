/-
  Runs of labelled transition systems.

  A `System` has initial states and labelled steps.  `Reachable` are the states
  of its runs, and `restrict` keeps the runs whose steps all meet a guard.  An
  invariant is proved with the invariants already known of the reachable states
  at hand.
-/
import Mathlib.Logic.Relation

/-- Initial states and labelled steps. -/
structure System (σ α : Type) where
  init : σ → Prop
  step : σ → α → σ → Prop

namespace System
variable {σ α : Type}

/-- The states of the runs. -/
inductive Reachable (T : System σ α) : σ → Prop where
  | init {s : σ} (h : T.init s) : Reachable T s
  | step {s s' : σ} {a : α} (h : Reachable T s) (hs : T.step s a s') : Reachable T s'

/-- The runs whose steps all meet the guard. -/
def restrict (T : System σ α) (guard : σ → α → Prop) : System σ α where
  init := T.init
  step s a s' := guard s a ∧ T.step s a s'

variable {T : System σ α}

/-- The invariant rule. -/
theorem Reachable.invariant {I : σ → Prop} (h₀ : ∀ s, T.init s → I s)
    (hstep : ∀ s a s', T.Reachable s → I s → T.step s a s' → I s') {s : σ}
    (h : T.Reachable s) : I s := by
  induction h with
  | init h => exact h₀ _ h
  | step h hs ih => exact hstep _ _ _ h ih hs

/-- A guarded run is a run. -/
theorem Reachable.of_restrict {guard : σ → α → Prop} {s : σ}
    (h : (T.restrict guard).Reachable s) : T.Reachable s := by
  induction h with
  | init h => exact .init h
  | step _ hs ih => exact .step ih hs.2

/-- The steps with the labels `as` lead from one state to another. -/
inductive Path (T : System σ α) : σ → List α → σ → Prop where
  | nil (s : σ) : Path T s [] s
  | cons {s s' s'' : σ} {a : α} {as : List α} (hs : T.step s a s') (h : Path T s' as s'') :
    Path T s (a :: as) s''

theorem Path.append {s s' s'' : σ} {as bs : List α} (h : T.Path s as s')
    (h' : T.Path s' bs s'') : T.Path s (as ++ bs) s'' := by
  induction h with
  | nil => exact h'
  | cons hs _ ih => exact .cons hs (ih h')

theorem Path.of_append {s s'' : σ} {as bs : List α} (h : T.Path s (as ++ bs) s'') :
    ∃ s', T.Path s as s' ∧ T.Path s' bs s'' := by
  induction as generalizing s with
  | nil => exact ⟨s, .nil s, h⟩
  | cons a as ih =>
    rcases h with _ | ⟨hs, h⟩
    obtain ⟨s', h₁, h₂⟩ := ih h
    exact ⟨s', .cons hs h₁, h₂⟩

theorem Path.single {s s' : σ} {a : α} (hs : T.step s a s') : T.Path s [a] s' :=
  .cons hs (.nil s')

theorem Reachable.path {s s' : σ} {as : List α} (h : T.Reachable s) (hp : T.Path s as s') :
    T.Reachable s' := by
  induction hp with
  | nil => exact h
  | cons hs _ ih => exact ih (.step h hs)

/-- A run: the state it ended in, and its steps so far, the last one first, each
    with the state it was taken in. -/
inductive Run (T : System σ α) : σ → List (σ × α) → Prop where
  | init {s : σ} (h : T.init s) : Run T s []
  | step {s s' : σ} {a : α} {steps : List (σ × α)} (h : Run T s steps) (hs : T.step s a s') :
    Run T s' ((s, a) :: steps)

theorem Run.reachable {s : σ} {steps : List (σ × α)} (h : T.Run s steps) : T.Reachable s := by
  induction h with
  | init h => exact .init h
  | step _ hs ih => exact .step ih hs

theorem Reachable.run {s : σ} (h : T.Reachable s) : ∃ steps, T.Run s steps := by
  induction h with
  | init h => exact ⟨[], .init h⟩
  | step _ hs ih =>
    obtain ⟨steps, h⟩ := ih
    exact ⟨_, h.step hs⟩

/-- If a step keeps a property exactly when it meets the guard, then a run keeps
    it exactly when all its steps do. -/
theorem Run.forall_iff {P : σ → Prop} {G : σ → α → Prop} (h₀ : ∀ s, T.init s → P s)
    (hstep : ∀ s a s', T.Reachable s → P s → T.step s a s' → (P s' ↔ G s a)) {s : σ}
    {steps : List (σ × α)} (h : T.Run s steps) :
    (P s ∧ ∀ x ∈ steps, P x.1) ↔ ∀ x ∈ steps, G x.1 x.2 := by
  induction h with
  | init h => simp [h₀ _ h]
  | @step s s' a steps h hs ih =>
    simp only [List.forall_mem_cons]
    constructor
    · rintro ⟨hs', hP, hrest⟩
      exact ⟨(hstep s a s' h.reachable hP hs).1 hs', ih.1 ⟨hP, hrest⟩⟩
    · rintro ⟨hg, hrest⟩
      obtain ⟨hP, hall⟩ := ih.2 hrest
      exact ⟨(hstep s a s' h.reachable hP hs).2 hg, hP, hall⟩

end System
