/-
  Refinement — the runs of one labelled transition system seen as runs of another.

  A step of the concrete system is a path of the abstract one: no step, one, or a
  few.  What is known of the reachable states of the abstract system then holds of
  those of the concrete one.  The states are connected by a function (`Refines`), or
  by a relation (`Simulates`).  Where the labels of the paths are known, the two runs
  go on in step (`InStep`).
-/
import CqlClient.Lib.Run

namespace System
variable {σ α τ β : Type} {T : System σ α} {A : System τ β} {f : σ → τ}

/-- Seen through `f`, the runs of `T` are runs of `A`. -/
structure Refines (T : System σ α) (A : System τ β) (f : σ → τ) : Prop where
  init : ∀ s, T.init s → A.init (f s)
  step : ∀ s a s', T.Reachable s → T.step s a s' → ∃ bs, A.Path (f s) bs (f s')

/-- **The reachable states are reachable.** -/
theorem Refines.reachable (h : Refines T A f) {s : σ} (hs : T.Reachable s) :
    A.Reachable (f s) := by
  induction hs with
  | init hinit => exact .init (h.init _ hinit)
  | step hs hstep ih =>
    obtain ⟨bs, hpath⟩ := h.step _ _ _ hs hstep
    exact ih.path hpath

/-- A path whose labels meet the guard in any state is one of the guarded system. -/
theorem Path.restrict {guard : σ → α → Prop} {s s' : σ} {as : List α} (h : T.Path s as s')
    (hguard : ∀ a ∈ as, ∀ s, guard s a) : (T.restrict guard).Path s as s' := by
  induction h with
  | nil s => exact .nil s
  | cons hs _ ih =>
    obtain ⟨ha, has⟩ := List.forall_mem_cons.1 hguard
    exact .cons ⟨ha _, hs⟩ (ih has)

/-- Every step of `T` is matched by a path of `A` that keeps the states related. -/
structure Simulates (T : System σ α) (A : System τ β) (R : σ → τ → Prop) : Prop where
  init : ∀ s, T.init s → ∃ t, A.init t ∧ R s t
  step : ∀ s a s' t, T.Reachable s → A.Reachable t → R s t → T.step s a s' →
    ∃ bs t', A.Path t bs t' ∧ R s' t'

/-- **A reachable state is related to one.** -/
theorem Simulates.reachable {R : σ → τ → Prop} (h : Simulates T A R) {s : σ}
    (hs : T.Reachable s) : ∃ t, A.Reachable t ∧ R s t := by
  induction hs with
  | init hinit =>
    obtain ⟨t, ht, hR⟩ := h.init _ hinit
    exact ⟨t, .init ht, hR⟩
  | step hs hstep ih =>
    obtain ⟨t, ht, hR⟩ := ih
    obtain ⟨bs, t', hpath, hR'⟩ := h.step _ _ _ t hs ht hR hstep
    exact ⟨t', ht.path hpath, hR'⟩

/-- A run of `A` in step with one of another system: in the place of each step it takes the
    path with the labels that belong to the step, and then the states are related. -/
inductive InStep (A : System τ β) (labels : σ → α → List β) (R : σ → τ → Prop) :
    σ → List (σ × α) → τ → Prop where
  | init {s : σ} {t : τ} (h : A.init t) (hR : R s t) : InStep A labels R s [] t
  | step {s s' : σ} {t t' : τ} {a : α} {steps : List (σ × α)} (h : InStep A labels R s steps t)
    (hp : A.Path t (labels s a) t') (hR : R s' t') : InStep A labels R s' ((s, a) :: steps) t'

theorem InStep.related {labels : σ → α → List β} {R : σ → τ → Prop} {s : σ} {t : τ}
    {steps : List (σ × α)} (h : A.InStep labels R s steps t) : R s t := by
  cases h with
  | init _ hR => exact hR
  | step _ _ hR => exact hR

/-- **A run has one in step with it** if every step is matched by the path with its
    labels. -/
theorem Run.inStep {labels : σ → α → List β} {R : σ → τ → Prop}
    (hinit : ∀ s, T.init s → ∃ t, A.init t ∧ R s t)
    (hstep : ∀ s a s' t, T.Reachable s → R s t → T.step s a s' →
      ∃ t', A.Path t (labels s a) t' ∧ R s' t')
    {s : σ} {steps : List (σ × α)} (h : T.Run s steps) : ∃ t, A.InStep labels R s steps t := by
  induction h with
  | init h =>
    obtain ⟨t, ht, hR⟩ := hinit _ h
    exact ⟨t, .init ht hR⟩
  | step h hs ih =>
    obtain ⟨t, ht⟩ := ih
    obtain ⟨t', hp, hR⟩ := hstep _ _ _ t h.reachable ht.related hs
    exact ⟨t', .step ht hp hR⟩

end System
