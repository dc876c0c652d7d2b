import Mathlib.Algebra.Order.Floor.Ring
import Mathlib.Data.Rat.Floor
import Mathlib.Data.Rat.Sqrt
import VideoFingerprint.Number.Scalar

/-!
The rational numbers, on which sampling does not round. Every number is finite, and comparisons
are those of the order. Only the root is not the exact one, where there is none among the
rationals.
-/

namespace VideoFingerprint

instance : Scalar ℚ where
  ofNat n := n
  sqrt := Rat.sqrt
  floor x := ⌊x⌋
  round x := if 0 ≤ x then ⌊x + 1 / 2⌋ else ⌈x - 1 / 2⌉
  isFinite _ := true
  le x y := x ≤ y
  lt x y := x < y
  sortsBefore x y := x ≤ y

namespace Scalar

theorem ofNat_rat (n : ℕ) : (ofNat n : ℚ) = n := rfl

theorem le_rat (x y : ℚ) : le x y = decide (x ≤ y) := rfl

theorem lt_rat (x y : ℚ) : lt x y = decide (x < y) := rfl

end Scalar

end VideoFingerprint
