import Mathlib.Analysis.Real.Sqrt
import VideoFingerprint.Number.Scalar

/-!
The real numbers, on which nothing rounds and every root is exact. What is proved of frames
over them holds of the definitions themselves, apart from rounding.
-/

namespace VideoFingerprint

noncomputable instance : Scalar ℝ where
  ofNat n := n
  sqrt := Real.sqrt
  floor x := ⌊x⌋
  round x := if 0 ≤ x then ⌊x + 1 / 2⌋ else ⌈x - 1 / 2⌉
  isFinite _ := true
  le x y := x ≤ y
  lt x y := x < y
  sortsBefore x y := x ≤ y

namespace Scalar

theorem ofNat_real (n : ℕ) : (ofNat n : ℝ) = n := rfl

theorem sqrt_real (x : ℝ) : sqrt x = √x := rfl

theorem le_real (x y : ℝ) : le x y = decide (x ≤ y) := rfl

theorem lt_real (x y : ℝ) : lt x y = decide (x < y) := rfl

theorem sortsBefore_real (x y : ℝ) : sortsBefore x y = decide (x ≤ y) := rfl

theorem sum_real (values : List ℝ) : sum values = values.sum := by
  rw [List.sum_eq_foldl, ← Nat.cast_zero]
  rfl

end Scalar

end VideoFingerprint
