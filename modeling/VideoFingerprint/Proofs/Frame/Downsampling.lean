import Mathlib.Algebra.Order.Floor.Div
import Mathlib.Data.List.Perm.Basic
import VideoFingerprint.Proofs.Frame.Averages

/-!
Smoothing and decimation in exact arithmetic. A round of filters over all rows and all columns,
one line after the other in place, takes the means over windows along one axis and then along
the other. These two operations commute, so the smoothed plane is the one whose pixels are
means of means of windows along each axis, in any order.
-/

namespace VideoFingerprint

open Finset

/-! ### Means along an axis -/

inductive Axis
  | horizontal
  | vertical
deriving DecidableEq

abbrev Picture (width height : ℕ) := Fin width × Fin height → ℝ

variable {width height : ℕ}

/-- Each pixel replaced by the mean of the pixels in the window around it along an axis. One
window in 128, rounded up, covers the side. -/
noncomputable def meansAlong (axis : Axis) (f : Picture width height) : Picture width height :=
  fun (x, y) =>
  match axis with
  | .horizontal => windowMean (width ⌈/⌉ 128) (fun x => f (x, y)) x
  | .vertical => windowMean (height ⌈/⌉ 128) (fun y => f (x, y)) y

theorem isAverage_meansAlong (axis : Axis) (place : Fin width × Fin height) :
    IsAverage fun f => meansAlong axis f place := by
  obtain ⟨x, y⟩ := place
  cases axis with
  | horizontal => exact (isAverage_windowMean _ x).comap fun x => (x, y)
  | vertical => exact (isAverage_windowMean _ y).comap fun y => (x, y)

theorem meansAlong_horizontal_vertical (f : Picture width height) :
    meansAlong .horizontal (meansAlong .vertical f) =
      meansAlong .vertical (meansAlong .horizontal f) := by
  funext ⟨x, y⟩
  simp only [meansAlong, windowMean, ← sum_div]
  rw [sum_comm, div_right_comm]

/-- Means along different axes may be taken in either order. -/
theorem meansAlong_comm (a b : Axis) (f : Picture width height) :
    meansAlong a (meansAlong b f) = meansAlong b (meansAlong a f) := by
  cases a <;> cases b
  · rfl
  · exact meansAlong_horizontal_vertical f
  · exact (meansAlong_horizontal_vertical f).symm
  · rfl

noncomputable def meansAlongAll (axes : List Axis) (f : Picture width height) :
    Picture width height :=
  axes.foldl (fun f axis => meansAlong axis f) f

theorem meansAlongAll_perm {axes axes' : List Axis} (h : axes.Perm axes')
    (f : Picture width height) :
    meansAlongAll axes f = meansAlongAll axes' f :=
  have : RightCommutative fun (f : Picture width height) axis => meansAlong axis f :=
    ⟨fun f a b => meansAlong_comm b a f⟩
  h.foldl_eq f

theorem isAverage_meansAlongAll (axes : List Axis) (place : Fin width × Fin height) :
    IsAverage fun f => meansAlongAll axes f place := by
  induction axes using List.reverseRecOn generalizing place with
  | nil => exact isAverage_value place
  | append_singleton axes axis ih =>
      simp only [meansAlongAll, List.foldl_append, List.foldl_cons, List.foldl_nil]
      exact (isAverage_meansAlong axis place).comp ih

/-! ### Smoothing in place -/

namespace Plane

def view {α : Type} (p : Plane α) : Fin p.width × Fin p.height → α :=
  fun (x, y) => p.pixel x y x.isLt y.isLt

theorem place_rowLine {y : ℕ} (h : y < height) (x : Fin (rowLine width height y h).count) :
    (rowLine width height y h).place x = ⟨y * width + x, index_lt x.isLt h⟩ := by
  simp [Line.place, rowLine]

theorem place_columnLine {x : ℕ} (h : x < width)
    (y : Fin (columnLine width height x h).count) :
    (columnLine width height x h).place y = ⟨y * width + x, index_lt h y.isLt⟩ := by
  simp [Line.place, columnLine, Nat.add_comm]

/-- Pixels in different columns or rows lie at different places. -/
theorem eq_of_index_eq {x x' y y' : ℕ} (hx : x < width) (hx' : x' < width)
    (h : y * width + x = y' * width + x') : x = x' ∧ y = y' := by
  have hmod := congrArg (· % width) h
  simp only [Nat.mul_add_mod_of_lt hx, Nat.mul_add_mod_of_lt hx'] at hmod
  subst hmod
  exact ⟨rfl, Nat.eq_of_mul_eq_mul_right (Nat.zero_lt_of_lt hx) (Nat.add_right_cancel h)⟩

theorem windowFor_eq {side : ℕ} (h : 0 < side) : windowFor side = side ⌈/⌉ 128 := by
  rw [Nat.ceilDiv_eq_add_pred_div, windowFor, samples]
  omega

/-- Filtering the rows of a plane one after the other. -/
theorem get_filterRows (pixels : Vector ℝ (width * height)) (x : Fin width) (y : Fin height) :
    (Nat.fold height (fun y h =>
      boxFilter (rowLine width height y h) (windowFor width)) pixels).get
        ⟨y * width + x, index_lt x.isLt y.isLt⟩ =
      windowMean (width ⌈/⌉ 128)
        (fun x => pixels.get ⟨y * width + x, index_lt x.isLt y.isLt⟩) x := by
  have hrow := (Line.get_fold_work
    (fun y h => worksOn_boxFilter (rowLine width height y h) (windowFor width))
    (fun y h x y' h' x' heq => ?_) pixels).1 y y.isLt x
  · rw [place_rowLine y.isLt x] at hrow
    simp only [place_rowLine] at hrow
    rw [hrow, windowFor_eq x.pos]
    rfl
  · rw [place_rowLine, place_rowLine] at heq
    exact (eq_of_index_eq x.isLt x'.isLt (Fin.val_eq_of_eq heq)).2

/-- Filtering the columns of a plane one after the other. -/
theorem get_filterColumns (pixels : Vector ℝ (width * height)) (x : Fin width)
    (y : Fin height) :
    (Nat.fold width (fun x h =>
      boxFilter (columnLine width height x h) (windowFor height)) pixels).get
        ⟨y * width + x, index_lt x.isLt y.isLt⟩ =
      windowMean (height ⌈/⌉ 128)
        (fun y => pixels.get ⟨y * width + x, index_lt x.isLt y.isLt⟩) y := by
  have hcolumn := (Line.get_fold_work
    (fun x h => worksOn_boxFilter (columnLine width height x h) (windowFor height))
    (fun x h y x' h' y' heq => ?_) pixels).1 x x.isLt y
  · rw [place_columnLine x.isLt y] at hcolumn
    simp only [place_columnLine] at hcolumn
    rw [hcolumn, windowFor_eq y.pos]
    rfl
  · rw [place_columnLine, place_columnLine] at heq
    exact (eq_of_index_eq h h' (Fin.val_eq_of_eq heq)).1

/-- A round of smoothing takes means along the rows and then along the columns. -/
theorem view_smoothOnce (p : Plane ℝ) :
    p.smoothOnce.view = meansAlong .vertical (meansAlong .horizontal p.view) := by
  funext ⟨x, y⟩
  refine (get_filterColumns _ x y).trans ?_
  show windowMean _ _ _ = windowMean _ _ _
  congr 1
  funext y
  exact get_filterRows p.pixels x y

/-! ### Decimation -/

theorem centre_lt {side : ℕ} (h : 0 < side) (i : Fin samples) :
    (2 * i + 1) * side / 128 < side := by
  refine Nat.div_lt_of_lt_mul (Nat.mul_lt_mul_of_pos_right ?_ h)
  have : i.val < 64 := i.isLt
  omega

/-- The middle of a strip lies in the plane without being moved. -/
theorem stripCentre_eq {side : ℕ} (h : 0 < side) (i : Fin samples) :
    stripCentre i side = (2 * i + 1) * side / 128 :=
  min_eq_left (Nat.le_sub_one_of_lt (centre_lt h i))

def centre (hw : 0 < width) (hh : 0 < height) (x y : Fin samples) : Fin width × Fin height :=
  (⟨(2 * x + 1) * width / 128, centre_lt hw x⟩, ⟨(2 * y + 1) * height / 128, centre_lt hh y⟩)

theorem get_decimate (p : Plane ℝ) (hw : 0 < p.width) (hh : 0 < p.height) (x y : Fin samples) :
    ((p.decimate hw hh).get y).get x = p.view (centre hw hh x y) := by
  rw [decimate, get_ofFn, get_ofFn]
  congr 1
  · exact stripCentre_eq hw x
  · exact stripCentre_eq hh y

/-- Two rounds of smoothing, and then the pixels in the middle of the strips. -/
theorem get_downsample (p : Plane ℝ) (hw : 0 < p.width) (hh : 0 < p.height)
    (x y : Fin samples) :
    ((p.downsample hw hh).get y).get x =
      meansAlongAll [.horizontal, .vertical, .horizontal, .vertical] p.view
        (centre hw hh x y) := by
  refine (get_decimate p.smoothOnce.smoothOnce hw hh x y).trans ?_
  rw [view_smoothOnce, view_smoothOnce]
  rfl

/-- Each sample is an average of the pixels, with weights that only the shape of the
plane decides. -/
theorem isAverage_sample (hw : 0 < width) (hh : 0 < height) (x y : Fin samples) :
    IsAverage fun f : Picture width height =>
      meansAlongAll [.horizontal, .vertical, .horizontal, .vertical] f (centre hw hh x y) :=
  isAverage_meansAlongAll _ _

theorem downsample?_eq_some {p : Plane ℝ} (hw : 0 < p.width) (hh : 0 < p.height) :
    p.downsample? = some (p.downsample hw hh) := dif_pos ⟨hw, hh⟩

/-- The pixels of a plane of 64 by 64 are their own samples: windows hold one pixel and strips
are one pixel wide. -/
theorem meansAlongAll_of_samples (axes : List Axis) (f : Picture samples samples)
    (h : 0 < samples) (x y : Fin samples) :
    meansAlongAll axes f (centre h h x y) = f (x, y) := by
  have hmeans (axis : Axis) (f : Picture samples samples) : meansAlong axis f = f := by
    have hwindow : samples ⌈/⌉ 128 ≤ 1 := by decide
    funext ⟨x, y⟩
    cases axis <;> exact congrFun (windowMean_of_le_one hwindow _) _
  have hall : meansAlongAll axes f = f := by
    induction axes using List.reverseRecOn with
    | nil => rfl
    | append_singleton axes axis ih =>
        rw [meansAlongAll, List.foldl_append, List.foldl_cons, List.foldl_nil, hmeans]
        exact ih
  have hcentre (i : Fin samples) : (2 * i + 1) * samples / 128 = i.val := by
    simp only [samples]
    omega
  rw [hall]
  simp only [centre, hcentre]

/-- The places that smoothing and decimation of a plane of the given shape read and write. A
window is a range of places on its line, with the place in it that it is around; the pixels
from the top of a column on, taken in steps of the width, are the column to its end; the middle
of a strip lies inside without being moved there. -/
structure PlacesFit (width height : ℕ) : Prop where
  window : ∀ size n i, i < n → windowStart size i ≤ i ∧ i ≤ windowEnd size n i ∧
    windowEnd size n i < n
  row : ∀ x y, x < width → y < height → y * width + x < width * height
  column : ∀ x (h : x < width),
    (Line.strided (width * height - x) width (Nat.zero_lt_of_lt h)).count = height
  centre : ∀ i : Fin samples, stripCentre i width = (2 * i + 1) * width / 128 ∧
    stripCentre i width < width ∧
    stripCentre i height = (2 * i + 1) * height / 128 ∧ stripCentre i height < height

theorem placesFit (hw : 0 < width) (hh : 0 < height) : PlacesFit width height where
  window size n i hi := ⟨windowStart_le size i, le_windowEnd hi, windowEnd_lt hi⟩
  row x y := index_lt
  column x h := by
    have hsucc : (height + 1) * width = width * height + width := by
      rw [Nat.succ_mul, Nat.mul_comm]
    have hpos : width ≤ width * height := Nat.le_mul_of_pos_right width hh
    refine Nat.div_eq_of_lt_le ?_ ?_
    · rw [Nat.mul_comm]
      omega
    · omega
  centre i := ⟨stripCentre_eq hw i, stripCentre_lt hw, stripCentre_eq hh i, stripCentre_lt hh⟩

/-- Downsampling is separable. Every plane with pixels has 64 by 64 samples. Each of them is
the pixel in the middle of its strips after taking, twice along each axis and in any order,
means over windows of one pixel in 128; so it is an average of the pixels whose weights only
the shape decides, lies between the least and the greatest one, and is that of a plane in which
all are equal. A plane that has the size of the samples is not changed. -/
theorem downsample_separable (hw : 0 < width) (hh : 0 < height) :
    PlacesFit width height ∧ ∃ weight : Fin samples → Fin samples → Fin width × Fin height → ℝ,
      (∀ x y, (∀ i, 0 ≤ weight x y i) ∧ ∑ i, weight x y i = 1) ∧
      ∀ pixels : Vector ℝ (width * height), ∃ grid,
        downsample? ⟨width, height, pixels⟩ = some grid ∧
        ∀ x y, (∀ axes : List Axis,
          axes.Perm [.horizontal, .horizontal, .vertical, .vertical] →
            (grid.get y).get x = meansAlongAll axes (view ⟨width, height, pixels⟩)
              (centre hw hh x y)) ∧
          (grid.get y).get x = ∑ i, weight x y i * view ⟨width, height, pixels⟩ i ∧
          (∀ low high, (∀ i, low ≤ view ⟨width, height, pixels⟩ i ∧
            view ⟨width, height, pixels⟩ i ≤ high) →
            low ≤ (grid.get y).get x ∧ (grid.get y).get x ≤ high) ∧
          (∀ c, (∀ i, view ⟨width, height, pixels⟩ i = c) → (grid.get y).get x = c) ∧
          ∀ (hwidth : samples = width) (hheight : samples = height),
            (grid.get y).get x = view ⟨width, height, pixels⟩
              (x.cast hwidth, y.cast hheight) := by
  have haverage := isAverage_sample hw hh
  choose weight hnonneg hone hweight using haverage
  refine ⟨placesFit hw hh, weight, fun x y => ⟨hnonneg x y, hone x y⟩, fun pixels => ?_⟩
  refine ⟨_, downsample?_eq_some (p := ⟨width, height, pixels⟩) hw hh, fun x y => ?_⟩
  rw [get_downsample ⟨width, height, pixels⟩ hw hh x y]
  refine ⟨fun axes haxes => ?_, hweight x y _, fun low high hbounds => ?_, fun c hc => ?_, ?_⟩
  · refine congrFun (meansAlongAll_perm (.trans ?_ haxes.symm) _) _
    decide
  · exact ⟨(isAverage_sample hw hh x y).le_of_forall_ge fun i => (hbounds i).1,
      (isAverage_sample hw hh x y).le_of_forall_le fun i => (hbounds i).2⟩
  · rw [funext hc]
    exact (isAverage_sample hw hh x y).const c
  · rintro rfl rfl
    exact meansAlongAll_of_samples _ _ hw x y

noncomputable def ramp : Plane ℝ := ⟨129, 1, Vector.ofFn fun i => (i.val : ℝ)⟩

/-- Windows of two pixels move the values of a ramp by half a pixel in each round. -/
theorem downsample_separable_ramp :
    0 < 129 ∧ 0 < 1 ∧ [Axis.horizontal, .horizontal, .vertical, .vertical].Perm
        [.horizontal, .horizontal, .vertical, .vertical] ∧
      ∃ grid, downsample? ramp = some grid ∧
        (grid.get ⟨0, by decide⟩).get ⟨0, by decide⟩ = 2 := by
  obtain ⟨-, _, -, hall⟩ := @downsample_separable 129 1 (by decide) (by decide)
  obtain ⟨grid, hgrid, hsample⟩ := hall ramp.pixels
  refine ⟨by decide, by decide, .refl _, grid, hgrid, ?_⟩
  have hpair {i j : Fin 129} (f : Fin 129 → ℝ) (hwindow : windowAround 2 i = {i, j})
      (hne : i ≠ j) :
      windowMean (129 ⌈/⌉ 128) f i = (f i + f j) / 2 := by
    have htwo : 129 ⌈/⌉ 128 = 2 := rfl
    rw [htwo, windowMean, hwindow, sum_pair hne, card_pair hne, Nat.cast_two]
  have hvertical (f : Picture 129 1) : meansAlong .vertical f = f := by
    funext place
    obtain ⟨x, y⟩ := place
    exact congrFun (windowMean_of_le_one (by decide) _) y
  have hvalue (x : Fin 129) : view ⟨129, 1, ramp.pixels⟩ (x, 0) = x.val := by
    simp [view, pixel, ramp]
  have hcentre : @centre 129 1 (by decide) (by decide) ⟨0, by decide⟩ ⟨0, by decide⟩ =
      (1, 0) := rfl
  rw [(hsample _ _).1 _ (.refl _), hcentre]
  simp only [meansAlongAll, List.foldl_cons, List.foldl_nil, hvertical, meansAlong]
  rw [hpair (j := 2) _ (by decide) (by decide), hpair (j := 2) _ (by decide) (by decide),
    hpair (j := 3) _ (by decide) (by decide), hvalue, hvalue, hvalue]
  norm_num

end Plane

end VideoFingerprint
