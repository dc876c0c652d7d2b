import VideoFingerprint.Number.Scalar

/-!
Planes of pixels and square grids. The pixels of a plane lie row by row in one vector, so a row
or a column is a line of evenly spaced places in it.
-/

namespace VideoFingerprint

/-- A rectangle of pixels, row by row. -/
structure Plane (α : Type) where
  width : Nat
  height : Nat
  pixels : Vector α (width * height)

abbrev Grid (α : Type) (n : Nat) := Vector (Vector α n) n

/-- Evenly spaced places in a vector. -/
structure Line (size : Nat) where
  start : Nat
  step : Nat
  count : Nat
  step_pos : 0 < step
  inside : ∀ i, i < count → start + i * step < size

namespace Line

variable {size : Nat}

/-- Every `step`th place, from the first one on. -/
def strided (size step : Nat) (h : 0 < step) : Line size where
  start := 0
  step := step
  count := (size + step - 1) / step
  step_pos := h
  inside := by
    intro i hi
    have hmul : (i + 1) * step ≤ size + step - 1 := (Nat.le_div_iff_mul_le h).1 hi
    rw [Nat.succ_mul] at hmul
    omega

def read {α : Type} (l : Line size) (data : Vector α size) : Vector α l.count :=
  Vector.ofFn fun i => data.get ⟨l.start + i.val * l.step, l.inside i.val i.isLt⟩

def write {α : Type} (l : Line size) (values : Vector α l.count) (data : Vector α size) :
    Vector α size :=
  Nat.fold l.count (fun i h data => data.set (l.start + i * l.step) values[i] (l.inside i h))
    data

end Line

namespace Plane

variable {α : Type}

theorem index_lt {width height x y : Nat} (hx : x < width) (hy : y < height) :
    y * width + x < width * height := by
  calc y * width + x < y * width + width := by omega
    _ = (y + 1) * width := by rw [Nat.succ_mul]
    _ ≤ height * width := Nat.mul_le_mul_right width hy
    _ = width * height := Nat.mul_comm ..

def pixel (p : Plane α) (x y : Nat) (hx : x < p.width) (hy : y < p.height) : α :=
  p.pixels.get ⟨y * p.width + x, index_lt hx hy⟩

def rowLine (width height y : Nat) (h : y < height) : Line (width * height) where
  start := y * width
  step := 1
  count := width
  step_pos := Nat.one_pos
  inside := by
    intro i hi
    rw [Nat.mul_one]
    exact index_lt hi h

def columnLine (width height x : Nat) (h : x < width) : Line (width * height) where
  start := x
  step := width
  count := height
  step_pos := Nat.lt_of_le_of_lt (Nat.zero_le x) h
  inside := by
    intro i hi
    rw [Nat.add_comm]
    exact index_lt h hi

end Plane

end VideoFingerprint
