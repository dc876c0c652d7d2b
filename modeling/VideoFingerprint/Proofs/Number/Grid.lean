import Mathlib.Algebra.Order.Group.Unbundled.Int
import Mathlib.Order.Monotone.Basic
import Mathlib.Tactic.Linarith

/-!
Rounding to the points of a grid. The points are the values of a strictly monotone sequence; a
quotient is rounded to a point when it lies between the midpoints to the two neighbours, a
midpoint itself belonging to the point with the even index. A quotient has at most one such
point, no other point is nearer to it, and larger quotients have larger points. Whole numbers
and the magnitudes of doubles are both grids of this kind.
-/

namespace VideoFingerprint

variable {g : ℕ → ℕ} {num den num₁ den₁ num₂ den₂ i j : ℕ}

/-- The quotient `num / den` is rounded to the point `g i`. -/
structure Rounds (g : ℕ → ℕ) (num den i : ℕ) : Prop where
  low : (g (i - 1) + g i) * den ≤ 2 * num
  high : 2 * num ≤ (g i + g (i + 1)) * den
  even : (g (i - 1) + g i) * den = 2 * num ∨ 2 * num = (g i + g (i + 1)) * den → i % 2 = 0

namespace Rounds

theorem index_le (hg : StrictMono g) (h₁ : Rounds g num₁ den₁ i) (h₂ : Rounds g num₂ den₂ j)
    (hden₁ : 0 < den₁) (hden₂ : 0 < den₂) (hle : num₁ * den₂ ≤ num₂ * den₁) : i ≤ j := by
  by_contra hji
  have hleft : g j ≤ g (i - 1) := hg.monotone (by omega)
  have hright : g (j + 1) ≤ g i := hg.monotone (by omega)
  have hpos : 0 < den₁ * den₂ := Nat.mul_pos hden₁ hden₂
  have hlow : (g (i - 1) + g i) * (den₁ * den₂) ≤ 2 * (num₁ * den₂) := by
    rw [← mul_assoc, ← mul_assoc]
    exact Nat.mul_le_mul_right den₂ h₁.low
  have hhigh : 2 * (num₂ * den₁) ≤ (g j + g (j + 1)) * (den₁ * den₂) := by
    rw [mul_comm den₁, ← mul_assoc, ← mul_assoc]
    exact Nat.mul_le_mul_right den₁ h₂.high
  have hmid : g (i - 1) + g i ≤ g j + g (j + 1) :=
    Nat.le_of_mul_le_mul_right (by omega : _ * (den₁ * den₂) ≤ _ * (den₁ * den₂)) hpos
  have hnext : j = i - 1 := hg.injective (by omega)
  have hsum : g j + g (j + 1) = g (i - 1) + g i := by omega
  have htie₁ : (g (i - 1) + g i) * den₁ = 2 * num₁ := by
    refine le_antisymm h₁.low (Nat.le_of_mul_le_mul_right (?_ : _ * den₂ ≤ _ * den₂) hden₂)
    rw [hsum] at hhigh
    rw [mul_assoc, mul_assoc]
    omega
  have htie₂ : 2 * num₂ = (g j + g (j + 1)) * den₂ := by
    refine le_antisymm h₂.high (Nat.le_of_mul_le_mul_right (?_ : _ * den₁ ≤ _ * den₁) hden₁)
    rw [hsum, mul_assoc, mul_assoc, mul_comm den₂]
    omega
  have heven₁ := h₁.even (.inl htie₁)
  have heven₂ := h₂.even (.inr htie₂)
  omega

theorem index_eq (hg : StrictMono g) (h₁ : Rounds g num₁ den₁ i) (h₂ : Rounds g num₂ den₂ j)
    (hden₁ : 0 < den₁) (hden₂ : 0 < den₂) (heq : num₁ * den₂ = num₂ * den₁) : i = j :=
  le_antisymm (h₁.index_le hg h₂ hden₁ hden₂ heq.le) (h₂.index_le hg h₁ hden₂ hden₁ heq.ge)

theorem closest (hg : StrictMono g) (h : Rounds g num den i) (j : ℕ) :
    |(g i * den : ℤ) - num| ≤ |(g j * den : ℤ) - num| := by
  have hlow : ((g (i - 1) + g i) * den : ℤ) ≤ 2 * num := by exact_mod_cast h.low
  have hhigh : (2 * num : ℤ) ≤ (g i + g (i + 1)) * den := by exact_mod_cast h.high
  rcases lt_trichotomy j i with hji | rfl | hij
  · have hprev : (g j * den : ℤ) ≤ g (i - 1) * den := by
      exact_mod_cast Nat.mul_le_mul_right den (hg.monotone (by omega : j ≤ i - 1))
    have hself : (g j * den : ℤ) ≤ g i * den := by
      exact_mod_cast Nat.mul_le_mul_right den (hg.monotone hji.le)
    have hsign : (g j * den : ℤ) - num ≤ 0 := by linarith
    rw [abs_of_nonpos hsign, abs_le]
    constructor <;> linarith
  · exact le_rfl
  · have hnext : (g (i + 1) * den : ℤ) ≤ g j * den := by
      exact_mod_cast Nat.mul_le_mul_right den (hg.monotone (by omega : i + 1 ≤ j))
    have hself : (g i * den : ℤ) ≤ g j * den := by
      exact_mod_cast Nat.mul_le_mul_right den (hg.monotone hij.le)
    have hsign : 0 ≤ (g j * den : ℤ) - num := by linarith
    rw [abs_of_nonneg hsign, abs_le]
    constructor <;> linarith

/-- A point of the grid is rounded to itself. -/
theorem refl (hg : StrictMono g) (hden : 0 < den) (i : ℕ) : Rounds g (g i * den) den i where
  low := by
    have hprev : g (i - 1) ≤ g i := hg.monotone (by omega)
    rw [← mul_assoc]
    exact Nat.mul_le_mul_right den (by omega)
  high := by
    have hnext : g i ≤ g (i + 1) := hg.monotone (by omega)
    rw [← mul_assoc]
    exact Nat.mul_le_mul_right den (by omega)
  even := by
    rintro (hlow | hhigh)
    · have hprev : g (i - 1) = g i := by
        have := Nat.eq_of_mul_eq_mul_right hden (hlow.trans (mul_assoc 2 (g i) den).symm)
        omega
      have := hg.injective hprev
      omega
    · have hnext : g i = g (i + 1) := by
        have := Nat.eq_of_mul_eq_mul_right hden ((mul_assoc 2 (g i) den).trans hhigh)
        omega
      have := hg.injective hnext
      omega

/-- Whether a quotient is rounded to a point does not depend on how it is written. -/
theorem mul_right (h : Rounds g num den i) {c : ℕ} (hc : 0 < c) :
    Rounds g (num * c) (den * c) i where
  low := by
    rw [← mul_assoc, ← mul_assoc]
    exact Nat.mul_le_mul_right c h.low
  high := by
    rw [← mul_assoc, ← mul_assoc]
    exact Nat.mul_le_mul_right c h.high
  even := by
    rw [← mul_assoc, ← mul_assoc, ← mul_assoc, Nat.mul_left_inj hc.ne',
      Nat.mul_left_inj hc.ne']
    exact h.even

end Rounds

end VideoFingerprint
