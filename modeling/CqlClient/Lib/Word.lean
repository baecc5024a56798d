/-
  Machine integers — conversions between the C integer types, as functions on
  `ℤ` and `ℕ`.

  A value of a fixed-width type is the mathematical integer it stands for; an
  operation that can leave the range of its type is followed by the conversion
  to that type (`toInt16`, `toInt32`, `toSizeT`), which wraps.  The lemmas say
  when a conversion does nothing, and that it is onto the range of its type.
-/
import Mathlib

namespace Word

/-- Conversion to `int16_t`. -/
def toInt16 (x : ℤ) : ℤ := x.bmod (2 ^ 16)

/-- Conversion to `int32_t`. -/
def toInt32 (x : ℤ) : ℤ := x.bmod (2 ^ 32)

/-- Conversion to `int64_t` (and `intptr_t` on a 64-bit host). -/
def toInt64 (x : ℤ) : ℤ := x.bmod (2 ^ 64)

/-- Conversion to `size_t` (and `uintptr_t`) on a 64-bit host. -/
def toSizeT (x : ℤ) : ℕ := (x % 2 ^ 64).toNat

theorem toInt16_eq {x : ℤ} (h₁ : -2 ^ 15 ≤ x) (h₂ : x < 2 ^ 15) : toInt16 x = x :=
  Int.bmod_eq_of_le (by norm_num; omega) (by norm_num; omega)

theorem toInt32_eq {x : ℤ} (h₁ : -2 ^ 31 ≤ x) (h₂ : x < 2 ^ 31) : toInt32 x = x :=
  Int.bmod_eq_of_le (by norm_num; omega) (by norm_num; omega)

theorem toSizeT_eq {x : ℤ} (h₁ : 0 ≤ x) (h₂ : x < 2 ^ 64) : (toSizeT x : ℤ) = x := by
  simp only [toSizeT]; omega

theorem toSizeT_natCast {n : ℕ} (h : n < 2 ^ 64) : toSizeT n = n := by
  have := toSizeT_eq (x := n) (by omega) (by omega); omega

theorem toInt16_range (x : ℤ) : -2 ^ 15 ≤ toInt16 x ∧ toInt16 x < 2 ^ 15 := by
  have h₁ := Int.le_bmod (x := x) (m := 2 ^ 16) (by norm_num)
  have h₂ := Int.bmod_lt (x := x) (m := 2 ^ 16) (by norm_num)
  simp only [toInt16]; norm_num at *; omega

theorem toInt32_range (x : ℤ) : -2 ^ 31 ≤ toInt32 x ∧ toInt32 x < 2 ^ 31 := by
  have h₁ := Int.le_bmod (x := x) (m := 2 ^ 32) (by norm_num)
  have h₂ := Int.bmod_lt (x := x) (m := 2 ^ 32) (by norm_num)
  simp only [toInt32]; norm_num at *; omega

/-- The unsigned value behind a signed one. -/
theorem toInt16_emod (x : ℤ) : toInt16 x % 2 ^ 16 = x % 2 ^ 16 := by
  have h := Int.bmod_emod (x := x) (m := 2 ^ 16)
  push_cast at h
  exact h

theorem toInt32_emod (x : ℤ) : toInt32 x % 2 ^ 32 = x % 2 ^ 32 := by
  have h := Int.bmod_emod (x := x) (m := 2 ^ 32)
  push_cast at h
  exact h

/-- The signed value behind an unsigned one. -/
theorem toInt16_of_emod {x : ℤ} (h₁ : -2 ^ 15 ≤ x) (h₂ : x < 2 ^ 15) : toInt16 (x % 2 ^ 16) = x :=
  (Int.emod_bmod x (2 ^ 16)).trans (toInt16_eq h₁ h₂)

theorem toInt32_of_emod {x : ℤ} (h₁ : -2 ^ 31 ≤ x) (h₂ : x < 2 ^ 31) : toInt32 (x % 2 ^ 32) = x :=
  (Int.emod_bmod x (2 ^ 32)).trans (toInt32_eq h₁ h₂)

/-- Wrapping on the way does not change the wrapped sum. -/
theorem toInt32_add (x y : ℤ) : toInt32 (toInt32 x + y) = toInt32 (x + y) := Int.bmod_add_bmod

/-- A wrapped value differs from the true one by a multiple of `2 ^ 32`. -/
theorem toInt32_cong (x : ℤ) : ∃ k : ℤ, toInt32 x = x + 2 ^ 32 * k := by
  refine ⟨-(x.bdiv (2 ^ 32)), ?_⟩
  have := Int.bmod_add_bdiv x (2 ^ 32)
  simp only [toInt32]; push_cast at this ⊢; linarith

/-- A wrapped value is the one value in range that is congruent to the true one. -/
theorem toInt32_unique {x y k : ℤ} (h : x = y + 2 ^ 32 * k) (h₁ : -2 ^ 31 ≤ y) (h₂ : y < 2 ^ 31) :
    toInt32 x = y := by
  obtain ⟨j, hj⟩ := toInt32_cong x
  have := toInt32_range x
  omega

end Word
