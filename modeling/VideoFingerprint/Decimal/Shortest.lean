import VideoFingerprint.Number.Binary64
import VideoFingerprint.Decimal.Layout

/-!
The decimal with the fewest digits that still reads back as a given double. A decimal reads
back as the double exactly when it lies in the double's rounding interval: between the
midpoints to its two neighbours, the midpoints included when the pattern is even. The powers of
ten are tried as grids from coarse to fine; on the first grid with a point in the interval, the
point nearest to the double is taken.
-/

namespace VideoFingerprint.Decimal

open Binary64

/-- The point nearest to the double with pattern `b` among the multiples of `10 ^ e`, if it
lies in the double's rounding interval. -/
def onGrid? (tie : Tie) (b : Nat) (e : Int) : Option Decimal :=
  let scale := Nat.pow 10 (-e).toNat
  let step := Nat.pow 10 e.toNat * unit
  let value := patternMagnitude b * scale
  let low := (patternMagnitude (b - 1) + patternMagnitude b) * scale
  let high := (patternMagnitude b + patternMagnitude (b + 1)) * scale
  let inside (c : Nat) : Bool :=
    if b % 2 = 0 then low ≤ 2 * c * step ∧ 2 * c * step ≤ high
    else low < 2 * c * step ∧ 2 * c * step < high
  let below := value / step
  let nearest := match tie with
    | .up => divHalfUp value step
    | .even => divHalfEven value step
  let other := 2 * below + 1 - nearest
  if inside nearest then some ⟨nearest, e⟩
  else if inside other then some ⟨other, e⟩
  else none

/-- An exponent of ten above the leading one of the double with pattern `b`. -/
def coarsestExponent (b : Nat) : Int :=
  ((Nat.log2 (patternMagnitude b) : Int) - 1074) * 30103 / 100000 + 2

/-- The shortest decimal of the double with pattern `b`; zero has the digit `0`. Seventeen
digits always suffice, so the search over the grids succeeds. -/
def shortest (tie : Tie) (b : Nat) : Decimal :=
  if b = 0 then ⟨0, 0⟩
  else
    ((List.range 20).findSome? fun (i : Nat) =>
      onGrid? tie b (coarsestExponent b - i)).getD ⟨0, 0⟩

/-- A double in a layout; only a finite one has digits. -/
def Layout.format (l : Layout) (x : Float) : String :=
  if x.isNaN then "NaN"
  else
    let size := if x.isInf then ['i', 'n', 'f'] else l.write (shortest l.tie (pattern x))
    String.ofList (if isNegative x then '-' :: size else size)

/-- Numbers in messages and in the fingerprint format: the shortest digits,
written out in full. -/
def plain : Layout :=
  { tie := .up, pointZero := false, positionalRange := none, plusSign := false }

end VideoFingerprint.Decimal

namespace VideoFingerprint

def plainText (x : Float) : String := Decimal.plain.format x

end VideoFingerprint
