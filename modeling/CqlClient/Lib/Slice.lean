/-
  A range of an array as a list.

  An array is a function on its indices; `slice a lo hi` lists the elements from
  `lo` up to `hi`.  Moving `lo` up by one pops the first element, and moving it
  down pushes one: the two operations of a stack that grows towards index 0.
-/
import Mathlib.Data.List.Range

namespace Slice
variable {α : Type*}

/-- The elements of `a` from `lo` up to `hi`. -/
def slice (a : ℕ → α) (lo hi : ℕ) : List α := (List.range' lo (hi - lo)).map a

variable (a : ℕ → α) {lo hi : ℕ}

@[simp] theorem length_slice : (slice a lo hi).length = hi - lo := by simp [slice]

theorem mem_slice {x : α} : x ∈ slice a lo hi ↔ ∃ i, lo ≤ i ∧ i < hi ∧ a i = x := by
  simp only [slice, List.mem_map, List.mem_range'_1]
  constructor
  · rintro ⟨i, hi, rfl⟩
    exact ⟨i, hi.1, by omega, rfl⟩
  · rintro ⟨i, hlo, hhi, rfl⟩
    exact ⟨i, ⟨hlo, by omega⟩, rfl⟩

theorem slice_pop (h : lo < hi) : slice a lo hi = a lo :: slice a (lo + 1) hi := by
  rw [slice, slice, show hi - lo = hi - (lo + 1) + 1 by omega, List.range'_succ, List.map_cons]

/-- Elements outside the range do not matter. -/
theorem slice_congr {b : ℕ → α} (h : ∀ i, lo ≤ i → i < hi → a i = b i) :
    slice a lo hi = slice b lo hi := by
  refine List.map_congr_left fun i hi' => ?_
  rw [List.mem_range'_1] at hi'
  exact h i hi'.1 (by omega)

theorem slice_push (h : lo < hi) (x : α) :
    slice (Function.update a lo x) lo hi = x :: slice a (lo + 1) hi := by
  rw [slice_pop _ h, Function.update_self]
  refine congrArg (x :: ·) (slice_congr _ fun i h₁ _ => ?_)
  exact Function.update_of_ne (by omega) _ _

end Slice
