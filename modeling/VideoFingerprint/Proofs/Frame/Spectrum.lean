import Mathlib.Data.List.FinRange
import Mathlib.Data.List.OfFn
import VideoFingerprint.Frame.Hashing
import VideoFingerprint.Proofs.Frame.Lines

/-!
The coefficients of a frame by number: coefficient `k` stands at vertical frequency `1 + k /
16` and horizontal frequency `1 + k % 16`.
-/

namespace VideoFingerprint

variable {α : Type}

/-- A transformed grid: the rows are transformed first, and then what they hold at
each frequency. -/
theorem Cosine.get_grid {n : Nat} (transformRow : Vector α n → Vector α n) (m : Grid α n)
    (u v : Fin n) :
    ((grid transformRow m).get v).get u =
      (transformRow (Vector.ofFn fun y => (transformRow (m.get y)).get u)).get v := by
  simp only [grid, transpose, get_ofFn, get_map]

namespace Spectrum

variable [Scalar α]

def vertical (k : Fin Hash.size) : Fin Plane.samples :=
  ⟨1 + k / 16, by have := k.isLt; simp only [Hash.size, Plane.samples] at *; omega⟩

def horizontal (k : Fin Hash.size) : Fin Plane.samples :=
  ⟨1 + k % 16, by simp only [Plane.samples]; omega⟩

def coefficient (m : Grid α Plane.samples) (k : Fin Hash.size) : α :=
  (m.get (vertical k)).get (horizontal k) * (Scalar.ofNat 2 / Scalar.ofNat 64)

def number (y x : Fin kept) : Fin Hash.size :=
  ⟨y * kept + x, @Plane.index_lt kept kept x y x.isLt y.isLt⟩

theorem vertical_number (y x : Fin kept) : vertical (number y x) = ⟨y + 1, place_lt y⟩ := by
  have hx : x.val < 16 := x.isLt
  refine Fin.ext ?_
  simp only [vertical, number, kept]
  omega

theorem horizontal_number (y x : Fin kept) :
    horizontal (number y x) = ⟨x + 1, place_lt x⟩ := by
  have hx : x.val < 16 := x.isLt
  refine Fin.ext ?_
  simp only [horizontal, number, kept]
  omega

theorem lowest_eq_ofFn (m : Grid α Plane.samples) : lowest m = List.ofFn (coefficient m) := by
  have hrows : List.ofFn (coefficient m) =
      (List.ofFn fun y : Fin kept => List.ofFn fun x : Fin kept =>
        coefficient m (number y x)).flatten :=
    List.ofFn_mul (m := kept) (n := kept) _
  rw [hrows, lowest, List.flatMap_def, List.ofFn_eq_map]
  refine congrArg List.flatten (List.map_congr_left fun y _ => ?_)
  rw [List.ofFn_eq_map]
  refine List.map_congr_left fun x _ => ?_
  rw [coefficient, vertical_number, horizontal_number]
  rfl

end Spectrum

/-- A plane that is large enough has a hash, made of its coefficients. -/
theorem FrameHash.ofPlane_eq_ok [Scalar α]
    {transformRow : Vector α Plane.samples → Vector α Plane.samples} {p : Plane α}
    (hw : 0 < p.width) (hh : 0 < p.height) (hwidth : minSide ≤ p.width)
    (hheight : minSide ≤ p.height) :
    ofPlane transformRow p = .ok (ofCoefficients (Spectrum.ofPlane transformRow p hw hh)) :=
  dif_pos ⟨hwidth, hheight⟩

end VideoFingerprint
