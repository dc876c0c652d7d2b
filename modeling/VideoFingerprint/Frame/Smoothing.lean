import VideoFingerprint.Frame.Plane

/-!
Smoothing and decimation of a plane. A box filter replaces each value on a line by the mean of
a window around it, cut off at the ends of the line; two rounds over all rows and then all
columns come near a tent filter. The window grows with the side of the plane, so that each of
the 64 samples that are kept stands for the strip of the plane around it.
-/

namespace VideoFingerprint

variable {α : Type} [Scalar α]

/-- The sums of the first values of a line, for every count of values. -/
def runningSums {n : Nat} (values : Vector α n) : Vector α (n + 1) :=
  ⟨(values.toList.scanl (· + ·) (Scalar.ofNat 0)).toArray, by simp [List.length_scanl]⟩

def windowStart (window i : Nat) : Nat := i - (window - 1) / 2

/-- The last place of the window around place `i` on a line of `n` values. -/
def windowEnd (window n i : Nat) : Nat := min (i + (window - 1 - (window - 1) / 2)) (n - 1)

/-- The means of the windows around the values of a line. -/
def windowMeans {n : Nat} (window : Nat) (values : Vector α n) : Vector α n :=
  let sums := runningSums values
  Vector.ofFn fun i =>
    let first := windowStart window i
    let last := windowEnd window n i
    (sums.get ⟨last + 1, by have := i.isLt; simp only [last, windowEnd]; omega⟩
        - sums.get ⟨first, by have := i.isLt; simp only [first, windowStart]; omega⟩)
      / Scalar.ofNat (last + 1 - first)

/-- Replaces the values on a line by the means of their windows; a window of one value
changes nothing. -/
def boxFilter {size : Nat} (l : Line size) (window : Nat) (data : Vector α size) :
    Vector α size :=
  if window ≤ 1 then data else l.write (windowMeans window (l.read data)) data

namespace Plane

def samples : Nat := 64

def windowFor (side : Nat) : Nat := max ((side + (2 * samples - 1)) / (2 * samples)) 1

/-- One round of smoothing: all rows, then all columns. -/
def smoothOnce (p : Plane α) : Plane α :=
  let rows := Nat.fold p.height
    (fun y h => boxFilter (rowLine p.width p.height y h) (windowFor p.width)) p.pixels
  let columns := Nat.fold p.width
    (fun x h => boxFilter (columnLine p.width p.height x h) (windowFor p.height)) rows
  ⟨p.width, p.height, columns⟩

/-- The place in the middle of strip `i`, where a side is cut into 64 equal strips. -/
def stripCentre (i side : Nat) : Nat := min ((2 * i + 1) * side / (2 * samples)) (side - 1)

theorem stripCentre_lt {i side : Nat} (h : 0 < side) : stripCentre i side < side := by
  simp only [stripCentre]
  omega

/-- The pixels in the middle of 64 by 64 equal strips. -/
def decimate (p : Plane α) (hw : 0 < p.width) (hh : 0 < p.height) : Grid α samples :=
  Vector.ofFn fun y => Vector.ofFn fun x =>
    p.pixel (stripCentre x p.width) (stripCentre y p.height) (stripCentre_lt hw)
      (stripCentre_lt hh)

def downsample (p : Plane α) (hw : 0 < p.width) (hh : 0 < p.height) : Grid α samples :=
  p.smoothOnce.smoothOnce.decimate hw hh

/-- Smooths a plane and keeps 64 by 64 samples; a plane without pixels has none. -/
def downsample? (p : Plane α) : Option (Grid α samples) :=
  if h : 0 < p.width ∧ 0 < p.height then some (p.downsample h.1 h.2) else none

end Plane

end VideoFingerprint
