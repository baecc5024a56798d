/-
  Potentials — how long the paths of a labelled transition system can be.

  A step uses up one unit of the potential, and a label may bring some with it.
  What is left bounds the steps that are still to come.
-/
import CqlClient.Lib.Run
import Mathlib

namespace System
variable {σ α : Type} {T : System σ α} {s s' : σ} {as : List α}

/-- A property that every step keeps backwards holds at the start of a path if it
    holds at the end. -/
theorem Path.backwards {Good : σ → Prop} (hgood : ∀ s a s', T.step s a s' → Good s' → Good s)
    (hp : T.Path s as s') (hg : Good s') : Good s := by
  induction hp with
  | nil s => exact hg
  | cons hs _ ih => exact hgood _ _ _ hs (ih hg)

/-- **The potential bounds the path.**  `I` is kept from the front on, and `Good` is
    known from the end. -/
theorem Path.length_add_le {I Good : σ → Prop} {allowed : α → Prop} (pot : σ → ℕ)
    (brings : α → ℕ) (hgood : ∀ s a s', T.step s a s' → Good s' → Good s)
    (hstep : ∀ s a s', I s → Good s' → allowed a → T.step s a s' →
      I s' ∧ pot s' + 1 ≤ pot s + brings a)
    (hp : T.Path s as s') (hI : I s) (hg : Good s') (has : ∀ a ∈ as, allowed a) :
    I s' ∧ as.length + pot s' ≤ pot s + (as.map brings).sum := by
  induction hp with
  | nil s => exact ⟨hI, by simp⟩
  | @cons s s₁ s₂ a as hs hp ih =>
    obtain ⟨ha, has⟩ := List.forall_mem_cons.1 has
    obtain ⟨hI₁, hpot⟩ := hstep s a s₁ hI (hp.backwards hgood hg) ha hs
    obtain ⟨hI₂, hle⟩ := ih hI₁ hg has
    refine ⟨hI₂, ?_⟩
    simp only [List.length_cons, List.map_cons, List.sum_cons]
    omega

end System

/-- A sum in which one term falls by `d`, after a rise of at most `e`, and every other
    one rises by at most `c`. -/
theorem Finset.sum_add_le_of_falls {ι : Type*} [DecidableEq ι] {t : Finset ι} {f g : ι → ℕ} {i : ι}
    {c d e : ℕ} (hi : i ∈ t) (hfalls : g i + d ≤ f i + e)
    (hrises : ∀ j ∈ t, j ≠ i → g j ≤ f j + c) :
    ∑ j ∈ t, g j + d ≤ ∑ j ∈ t, f j + (t.card - 1) * c + e := by
  have hrest : ∑ j ∈ t.erase i, g j ≤ ∑ j ∈ t.erase i, (f j + c) := by
    refine Finset.sum_le_sum fun j hj => ?_
    exact hrises j (Finset.mem_of_mem_erase hj) (Finset.ne_of_mem_erase hj)
  rw [Finset.sum_add_distrib, Finset.sum_const, Finset.card_erase_of_mem hi, smul_eq_mul] at hrest
  rw [← Finset.add_sum_erase t g hi, ← Finset.add_sum_erase t f hi]
  omega
