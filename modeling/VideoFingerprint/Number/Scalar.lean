import VideoFingerprint.Number.Binary64

/-!
The arithmetic that sampling and frame hashing need. Both are written over any number type with
these operations, so the same definitions run on doubles and can be studied over an exact
field, where no operation rounds.
-/

namespace VideoFingerprint

/-- A number type for timestamps, pixels and coefficients. `floor` and `round` give
whole numbers, `round` the nearest one with a half going away from zero. Comparisons are
tests, false when an operand is not a number; `sortsBefore` orders every value and is
used for sorting only. -/
class Scalar (α : Type) extends Add α, Sub α, Mul α, Div α, Neg α where
  ofNat : Nat → α
  sqrt : α → α
  floor : α → α
  round : α → α
  isFinite : α → Bool
  le : α → α → Bool
  lt : α → α → Bool
  sortsBefore : α → α → Bool

namespace Scalar

variable {α : Type} [Scalar α]

/-- Addition from left to right, starting at zero. -/
def sum (values : List α) : α := values.foldl (· + ·) (ofNat 0)

def clamp (low high x : α) : α := if lt x low then low else if lt high x then high else x

/-- The middle one of sorted values, or the mean of the two middle ones; no
values give zero. -/
def middle (sorted : List α) : α :=
  let mid := sorted.length / 2
  match sorted[mid]? with
  | none => ofNat 0
  | some high =>
    if sorted.length % 2 = 0 then (sorted.getD (mid - 1) high + high) / ofNat 2 else high

def median (values : List α) : α := middle (values.mergeSort sortsBefore)

/-- The standard deviation of a whole population; no values give zero. -/
def standardDeviation (values : List α) : α :=
  if values.isEmpty then ofNat 0
  else
    let n := ofNat values.length
    let mean := sum values / n
    sqrt (sum (values.map fun v => (v - mean) * (v - mean)) / n)

end Scalar

instance : Scalar Float where
  ofNat := Float.ofNat
  sqrt := Float.sqrt
  floor := Binary64.floor
  round := Binary64.roundHalfAway
  isFinite := Float.isFinite
  le x y := x ≤ y
  lt x y := x < y
  sortsBefore := Binary64.sortsBefore

end VideoFingerprint
