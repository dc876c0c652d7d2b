import VideoFingerprint.Frame.Cosine
import VideoFingerprint.Frame.Image
import VideoFingerprint.Frame.Smoothing
import VideoFingerprint.Hash.Basic
import VideoFingerprint.Quality

/-!
The perceptual hash of a frame. The brightness of the frame is smoothed, decimated to 64 by 64
samples and transformed; of the result the 16 by 16 lowest frequencies are kept, without those
that are zero in one direction. A bit of the hash is set when its coefficient is at or above
the median of all 256.
-/

namespace VideoFingerprint

/-- Why a frame cannot be hashed. -/
inductive HashError
  | frameTooSmall (width height : Nat)
deriving DecidableEq

def HashError.message : HashError → String
  | .frameTooSmall width height =>
    "frame is " ++ toString width ++ "x" ++ toString height ++
      ", but frames must be at least 5x5"

/-- A hash, with the energy of the coefficients it was made from. -/
structure FrameHash (α : Type) where
  hash : Hash
  energy : α

namespace Spectrum

variable {α : Type} [Scalar α]

/-- The number of frequencies that are kept in each direction. -/
def kept : Nat := 16

theorem place_lt (i : Fin kept) : i.val + 1 < Plane.samples := by
  have := i.isLt
  simp only [kept, Plane.samples] at *
  omega

/-- The lowest frequencies of a transformed frame, row by row, without those that are zero in
one direction. They are scaled so that the transform keeps lengths. -/
def lowest (m : Grid α Plane.samples) : List α :=
  (List.finRange kept).flatMap fun y => (List.finRange kept).map fun x =>
    (m.get ⟨y.val + 1, place_lt y⟩).get ⟨x.val + 1, place_lt x⟩ *
      (Scalar.ofNat 2 / Scalar.ofNat Plane.samples)

/-- The coefficients of a plane under a transform of rows. -/
def ofPlane (transformRow : Vector α Plane.samples → Vector α Plane.samples) (p : Plane α)
    (hw : 0 < p.width) (hh : 0 < p.height) : List α :=
  lowest (Cosine.grid transformRow (p.downsample hw hh))

@[simp] theorem length_lowest (m : Grid α Plane.samples) : (lowest m).length = Hash.size := by
  simp only [lowest, List.length_flatMap, List.length_map, List.length_finRange]
  rfl

end Spectrum

namespace FrameHash

variable {α : Type} [Scalar α]

def minSide : Nat := 5

def ofCoefficients (coefficients : List α) : FrameHash α :=
  let median := Scalar.median coefficients
  ⟨Hash.ofBits (coefficients.map fun c => Scalar.le median c),
    Scalar.standardDeviation coefficients⟩

def ofPlane (transformRow : Vector α Plane.samples → Vector α Plane.samples) (p : Plane α) :
    Except HashError (FrameHash α) :=
  if h : minSide ≤ p.width ∧ minSide ≤ p.height then
    .ok (ofCoefficients (Spectrum.ofPlane transformRow p
      (Nat.lt_of_lt_of_le (by decide) h.1) (Nat.lt_of_lt_of_le (by decide) h.2)))
  else .error (.frameTooSmall p.width p.height)

def ofImage (m : Image) : Except HashError (FrameHash Float) :=
  ofPlane (Cosine.row Angles.ofFloat) m.lumaPlane

def quality (h : FrameHash α) : α := Quality.ofEnergy h.energy

end FrameHash

end VideoFingerprint
