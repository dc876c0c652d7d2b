import VideoFingerprint.Number.Scalar

/-!
The quality of a frame, from `0` to `100`. A frame without detail has coefficients of almost no
energy and a hash made of noise, so its quality is near zero.
-/

namespace VideoFingerprint.Quality

variable {α : Type} [Scalar α]

open Scalar

def best : Nat := 100

/-- The quality of a frame whose coefficients have the given energy: the energy to the nearest
whole number, brought into range. -/
def ofEnergy (energy : α) : α :=
  if isFinite energy then clamp (ofNat 0) (ofNat best) (round energy) else ofNat 0

def inRange (quality : Float) : Bool := 0 ≤ quality ∧ quality ≤ 100

end VideoFingerprint.Quality
