import Mathlib.Analysis.SpecialFunctions.Trigonometric.Basic
import VideoFingerprint.Proofs.Frame.Cosine
import VideoFingerprint.Proofs.Frame.Downsampling
import VideoFingerprint.Proofs.Frame.Spectrum
import VideoFingerprint.Proofs.Hash.Bits
import VideoFingerprint.Proofs.Number.Statistics

/-!
Brightness and contrast. Samples are averages of pixels, so they go along with a change of the
brightness of all pixels; a row transform that is linear and flat on rows without change loses
what was added, as soon as no frequency that is zero in the horizontal direction is kept. So
the coefficients are only scaled, and with them their median and energy, and what is at or
above the median stays so.
-/

namespace VideoFingerprint

variable {a b : ℝ}

/-! ### Samples -/

namespace Plane

variable {p : Plane ℝ}

/-- The plane with the brightness of its pixels multiplied by `a` and raised by `b`. -/
def adjusted (a b : ℝ) (p : Plane ℝ) : Plane ℝ :=
  ⟨p.width, p.height, p.pixels.map fun v => a * v + b⟩

theorem view_adjusted (a b : ℝ) (p : Plane ℝ) (i : Fin p.width × Fin p.height) :
    (p.adjusted a b).view i = a * p.view i + b := get_map (fun v => a * v + b) p.pixels _

theorem get_downsample_adjusted (hw : 0 < p.width) (hh : 0 < p.height) (x y : Fin samples) :
    (((p.adjusted a b).downsample hw hh).get y).get x =
      a * ((p.downsample hw hh).get y).get x + b := by
  refine (get_downsample (p.adjusted a b) hw hh x y).trans ?_
  rw [get_downsample, ← (isAverage_sample hw hh x y).affine a b p.view,
    funext (view_adjusted a b p)]
  rfl

/-- A plane whose pixels are all equal is one that has lost all its contrast. -/
theorem eq_adjusted_of_flat {c : ℝ} (h : ∀ i, p.pixels.get i = c) : p = p.adjusted 0 c := by
  have hpixels : p.pixels = p.pixels.map fun v => 0 * v + c := by
    refine ext_get fun i => ?_
    rw [get_map, h i, zero_mul, zero_add]
  exact congrArg (Plane.mk p.width p.height) hpixels

end Plane

/-! ### Coefficients -/

section Transform

variable {n : ℕ} {transformRow : Vector ℝ n → Vector ℝ n}

namespace IsCosineLike

theorem get_scaled (h : IsCosineLike transformRow) (a : ℝ) (x : Vector ℝ n) (k : Fin n) :
    (transformRow (Vector.ofFn fun i => a * x.get i)).get k = a * (transformRow x).get k := by
  have hrow : (Vector.ofFn fun i => a * x.get i) =
      Vector.ofFn fun i => a * x.get i + 0 * x.get i :=
    ext_get fun i => by rw [get_ofFn, get_ofFn, zero_mul, add_zero]
  rw [hrow, h.linear, get_ofFn, zero_mul, add_zero]

/-- Where each row is a multiple of one row, the transformed grid is made of the transforms of
that row and of the factors. -/
theorem get_grid_product (h : IsCosineLike transformRow) {m : Grid ℝ n}
    {row column : Vector ℝ n} (hm : ∀ x y, (m.get y).get x = column.get y * row.get x)
    (u v : Fin n) :
    ((Cosine.grid transformRow m).get v).get u =
      (transformRow row).get u * (transformRow column).get v := by
  have hrow (y : Fin n) :
      (transformRow (m.get y)).get u = (transformRow row).get u * column.get y := by
    have hscaled : m.get y = Vector.ofFn fun x => column.get y * row.get x :=
      ext_get fun x => by rw [hm, get_ofFn]
    rw [hscaled, h.get_scaled, mul_comm]
  rw [Cosine.get_grid, funext hrow, h.get_scaled]

/-- What is added to all values of a row is not seen at any frequency but zero. -/
theorem get_affine (h : IsCosineLike transformRow) (a b : ℝ) (x : Vector ℝ n) {k : Fin n}
    (hk : 0 < k.val) :
    (transformRow (Vector.ofFn fun i => a * x.get i + b)).get k =
      a * (transformRow x).get k := by
  have hrow : (Vector.ofFn fun i => a * x.get i + b) =
      Vector.ofFn fun i => a * x.get i + 1 * (Vector.replicate n b).get i :=
    ext_get fun i => by
      rw [get_ofFn, get_ofFn, one_mul, get_eq_getElem (Vector.replicate n b),
        Vector.getElem_replicate]
  rw [hrow, h.linear, get_ofFn, h.flat b k hk, mul_zero, add_zero]

/-- In a transformed grid, what is added to all values is seen only where the horizontal
frequency is zero. -/
theorem get_grid_affine (h : IsCosineLike transformRow) {m m' : Grid ℝ n}
    (hm : ∀ x y, (m'.get y).get x = a * (m.get y).get x + b) {u : Fin n} (hu : 0 < u.val)
    (v : Fin n) :
    ((Cosine.grid transformRow m').get v).get u =
      a * ((Cosine.grid transformRow m).get v).get u := by
  have hrow (y : Fin n) :
      (transformRow (m'.get y)).get u = a * (transformRow (m.get y)).get u := by
    have hadjusted : m'.get y = Vector.ofFn fun x => a * (m.get y).get x + b :=
      ext_get fun x => by rw [hm, get_ofFn]
    rw [hadjusted, h.get_affine a b _ hu]
  have hcolumn : (Vector.ofFn fun y => (transformRow (m'.get y)).get u) =
      Vector.ofFn fun y => a * (Vector.ofFn fun y => (transformRow (m.get y)).get u).get y :=
    ext_get fun y => by rw [get_ofFn, get_ofFn, get_ofFn, hrow]
  rw [Cosine.get_grid, Cosine.get_grid, hcolumn, h.get_scaled]

end IsCosineLike

end Transform

variable {transformRow : Vector ℝ Plane.samples → Vector ℝ Plane.samples} {p : Plane ℝ}

namespace Spectrum

theorem ofPlane_adjusted (h : IsCosineLike transformRow) (a b : ℝ) (hw : 0 < p.width)
    (hh : 0 < p.height) :
    ofPlane transformRow (p.adjusted a b) hw hh =
      (ofPlane transformRow p hw hh).map (a * ·) := by
  show lowest _ = (lowest _).map (a * ·)
  rw [lowest_eq_ofFn, lowest_eq_ofFn, List.map_ofFn]
  refine congrArg List.ofFn (funext fun k => ?_)
  have hu : 0 < (horizontal k).val := Nat.lt_of_lt_of_le Nat.one_pos (Nat.le_add_right 1 _)
  rw [Function.comp_apply, coefficient, coefficient,
    h.get_grid_affine (fun x y => Plane.get_downsample_adjusted hw hh x y) hu, mul_assoc]

theorem ofPlane_of_flat (h : IsCosineLike transformRow) {c : ℝ}
    (hflat : ∀ i, p.pixels.get i = c) (hw : 0 < p.width) (hh : 0 < p.height) :
    ofPlane transformRow p hw hh = List.replicate Hash.size 0 := by
  have hzero : ofPlane transformRow (p.adjusted 0 c) hw hh = List.replicate Hash.size 0 := by
    rw [ofPlane_adjusted h]
    refine List.eq_replicate_iff.2 ⟨?_, fun v hv => ?_⟩
    · rw [List.length_map, ofPlane, length_lowest]
    · obtain ⟨c, -, rfl⟩ := List.mem_map.1 hv
      exact zero_mul c
  have hsame : ofPlane transformRow p hw hh = ofPlane transformRow (p.adjusted 0 c) hw hh := by
    congr 1
    exact Plane.eq_adjusted_of_flat hflat
  rw [hsame, hzero]

end Spectrum

/-! ### Hashes -/

namespace FrameHash

theorem ofCoefficients_map_mul (ha : 0 < a) (coefficients : List ℝ) :
    ofCoefficients (coefficients.map (a * ·)) =
      ⟨(ofCoefficients coefficients).hash, a * (ofCoefficients coefficients).energy⟩ := by
  have hbits : (coefficients.map (a * ·)).map
      (fun c => Scalar.le (a * Scalar.median coefficients) c) =
      coefficients.map fun c => Scalar.le (Scalar.median coefficients) c := by
    rw [List.map_map]
    refine List.map_congr_left fun c _ => ?_
    simp [Scalar.le_real, ha]
  rw [ofCoefficients, Scalar.median_map_mul ha, Scalar.standardDeviation_map_mul ha.le, hbits]
  rfl

theorem ofCoefficients_replicate_zero :
    ofCoefficients (List.replicate Hash.size (0 : ℝ)) = ⟨⟨BitVec.allOnes 256⟩, 0⟩ := by
  have hset : Scalar.le (0 : ℝ) 0 = true := by simp [Scalar.le_real]
  rw [ofCoefficients, Scalar.median_replicate_zero, Scalar.standardDeviation_replicate_zero,
    List.map_replicate, hset, Hash.ofBits_replicate_true]

theorem quality_zero (hash : Hash) : quality (⟨hash, 0⟩ : FrameHash ℝ) = 0 := by
  have hround : Scalar.round (0 : ℝ) = 0 := by
    show (if (0 : ℝ) ≤ 0 then ((⌊(0 : ℝ) + 1 / 2⌋ : ℤ) : ℝ) else _) = 0
    rw [if_pos le_rfl]
    norm_num
  have hfinite : Scalar.isFinite (0 : ℝ) = true := rfl
  rw [quality, Quality.ofEnergy, if_pos hfinite, hround]
  simp [Scalar.clamp, Scalar.lt_real, Scalar.ofNat_real]

/-- Brightness and contrast do not change the hash. In exact arithmetic and with any row
transform that is linear and keeps only the first value of a row without change, a change of
the brightness of all pixels that keeps their order multiplies the coefficients and the energy
by its factor and leaves the hash as it is. All coefficients of a plane without contrast are
zero, whatever its sides, so its hash has all bits set, and its energy and quality are zero. -/
theorem unchanged_by_brightness (h : IsCosineLike transformRow) :
    (∀ (p : Plane ℝ) (a b : ℝ) (hw : 0 < p.width) (hh : 0 < p.height),
      minSide ≤ p.width → minSide ≤ p.height → 0 < a →
        Spectrum.ofPlane transformRow (p.adjusted a b) hw hh =
          (Spectrum.ofPlane transformRow p hw hh).map (a * ·) ∧
        ∃ f, ofPlane transformRow p = .ok f ∧
          ofPlane transformRow (p.adjusted a b) = .ok ⟨f.hash, a * f.energy⟩) ∧
    ∀ (p : Plane ℝ) (c : ℝ) (hw : 0 < p.width) (hh : 0 < p.height), (∀ i, p.pixels.get i = c) →
      Spectrum.ofPlane transformRow p hw hh = List.replicate 256 0 ∧
        ∃ f, ofCoefficients (Spectrum.ofPlane transformRow p hw hh) = f ∧
          f.hash = ⟨BitVec.allOnes 256⟩ ∧ f.energy = 0 ∧ f.quality = 0 ∧
          (minSide ≤ p.width → minSide ≤ p.height → ofPlane transformRow p = .ok f) := by
  constructor
  · intro p a b hw hh hw' hh' ha
    have hscaled := Spectrum.ofPlane_adjusted h a b hw hh
    refine ⟨hscaled, _, ofPlane_eq_ok hw hh hw' hh', ?_⟩
    rw [ofPlane_eq_ok (p := p.adjusted a b) hw hh hw' hh', ← ofCoefficients_map_mul ha,
      ← hscaled]
  · intro p c hw hh hflat
    have hzero := Spectrum.ofPlane_of_flat h hflat hw hh
    refine ⟨hzero, _, rfl, ?_⟩
    rw [hzero, ofCoefficients_replicate_zero]
    refine ⟨rfl, rfl, quality_zero _, fun hw' hh' => ?_⟩
    rw [ofPlane_eq_ok hw hh hw' hh', hzero, ofCoefficients_replicate_zero]

/-! ### A light in a corner -/

noncomputable def exactAngles : Angles ℝ :=
  ⟨fun i n => Real.cos ((2 * i : ℕ) * Real.pi / n),
    fun i n => Real.sin ((2 * i : ℕ) * Real.pi / n)⟩

/-- A row that grows darker by one from pixel to pixel and ends in black. -/
noncomputable def falling : Vector ℝ Plane.samples := Vector.ofFn fun i => 63 - i.val

/-- A plane that grows darker away from its first corner, along every row and every column. -/
noncomputable def cornerLight : Plane ℝ :=
  ⟨64, 64, Vector.ofFn fun i => (63 - (i.val / 64 : ℕ)) * (63 - (i.val % 64 : ℕ))⟩

theorem isCosineLike_exact : IsCosineLike
    (Cosine.row exactAngles : Vector ℝ Plane.samples → Vector ℝ Plane.samples) :=
  Cosine.isCosineLike_row (k := 6) exactAngles (by decide)

theorem get_downsample_cornerLight (x y : Fin Plane.samples) :
    ((cornerLight.downsample (by decide) (by decide)).get y).get x =
      falling.get y * falling.get x := by
  have hx : x.val < 64 := x.isLt
  have hrow : (y.val * 64 + x.val) / 64 = y.val := by omega
  have hcolumn : (y.val * 64 + x.val) % 64 = x.val := by omega
  refine (Plane.get_downsample cornerLight (by decide) (by decide) x y).trans ?_
  refine (Plane.meansAlongAll_of_samples _ _ (by decide) x y).trans ?_
  rw [falling, get_ofFn, get_ofFn]
  refine (get_ofFn _ _).trans ?_
  show (63 - ((y.val * 64 + x.val) / 64 : ℕ) : ℝ) * (63 - ((y.val * 64 + x.val) % 64 : ℕ)) = _
  rw [hrow, hcolumn]

/-- The angles that the first frequency of 64 values is made of are in the first quarter. -/
theorem angle_mem_quarter {i : ℕ} (h : i < 16) :
    0 < ((2 * (2 * i + 1) : ℕ) * Real.pi / (16 * 16 : ℕ) : ℝ) ∧
      ((2 * (2 * i + 1) : ℕ) * Real.pi / (16 * 16 : ℕ) : ℝ) < Real.pi / 2 := by
  have hi : ((2 * (2 * i + 1) : ℕ) : ℝ) < 128 := by exact_mod_cast (by omega)
  have hpi := Real.pi_pos
  refine ⟨by positivity, ?_⟩
  rw [div_lt_div_iff₀ (by norm_num) two_pos]
  push_cast at hi ⊢
  nlinarith

theorem row_falling : Cosine.row exactAngles falling = Cosine.split exactAngles 6 falling :=
  Cosine.row_eq_split (k := 6) exactAngles (by decide) falling

theorem getElem_falling (i : ℕ) (h : i < Nat.pow 2 6) :
    getElem (falling : Vector ℝ (Nat.pow 2 6)) i h = 63 - i := Vector.getElem_ofFn h

theorem row_falling_one_pos :
    (0 : ℝ) < (Cosine.row exactAngles falling).get ⟨1, by decide⟩ := by
  rw [row_falling]
  refine Cosine.split_one_pos (k := 4) (fun i j hij hj => ?_) (fun i hi => ?_) (fun i hi => ?_)
    (by decide)
  · have hcast : (i : ℝ) < j := by exact_mod_cast hij
    have hbelow : (63 : ℝ) - j < 63 - i := sub_lt_sub_left hcast 63
    exact (getElem_falling j hj).trans_lt (hbelow.trans_eq (getElem_falling i _).symm)
  · obtain ⟨hpos, hlt⟩ := angle_mem_quarter hi
    exact Real.cos_pos_of_mem_Ioo ⟨(neg_neg_of_pos Real.pi_div_two_pos).trans hpos, hlt⟩
  · obtain ⟨hpos, hlt⟩ := angle_mem_quarter hi
    exact Real.sin_pos_of_pos_of_lt_pi hpos (hlt.trans (half_lt_self Real.pi_pos))

/-- Opposite values of a falling row have the same sum. -/
theorem row_falling_two : (Cosine.row exactAngles falling).get ⟨2, by decide⟩ = 0 := by
  rw [row_falling]
  refine Cosine.split_even_eq_zero (k := 4) exactAngles (c := 63) (fun i hi => ?_) (i := 1)
    (by decide) (by decide) Nat.one_pos
  have hi' : i < 32 := hi
  have hopposite : ((63 - i : ℕ) : ℝ) = 63 - i := by
    rw [Nat.cast_sub (by omega), Nat.cast_ofNat]
  have hsum := congrArg₂ (· + ·) (getElem_falling (63 - i) (show 63 - i < 64 by omega))
    (getElem_falling i (show i < 64 by omega))
  refine (Vector.getElem_ofFn hi).trans (hsum.trans ?_)
  show ((63 : ℝ) - (63 - i : ℕ)) + (63 - i) = 63
  rw [hopposite]
  ring

noncomputable def cornerCoefficient : Fin Hash.size → ℝ := Spectrum.coefficient
  (Cosine.grid (Cosine.row exactAngles) (cornerLight.downsample (by decide) (by decide)))

/-- The light is seen at the first horizontal frequency and not at the second one. -/
theorem cornerCoefficient_values :
    0 < cornerCoefficient ⟨0, by decide⟩ ∧ cornerCoefficient ⟨1, by decide⟩ = 0 := by
  have hproduct := isCosineLike_exact.get_grid_product get_downsample_cornerLight
  have hfirst : Spectrum.horizontal ⟨0, by decide⟩ = ⟨1, by decide⟩ ∧
      Spectrum.vertical ⟨0, by decide⟩ = ⟨1, by decide⟩ := ⟨rfl, rfl⟩
  have hsecond : Spectrum.horizontal ⟨1, by decide⟩ = ⟨2, by decide⟩ := rfl
  constructor
  · rw [cornerCoefficient, Spectrum.coefficient, hproduct, hfirst.1, hfirst.2]
    exact mul_pos (mul_pos row_falling_one_pos row_falling_one_pos)
      (by norm_num [Scalar.ofNat_real])
  · rw [cornerCoefficient, Spectrum.coefficient, hproduct, hsecond, row_falling_two, zero_mul,
      zero_mul]

theorem energy_cornerLight : 0 < (ofCoefficients (Spectrum.ofPlane (Cosine.row exactAngles)
    cornerLight (by decide) (by decide))).energy := by
  obtain ⟨hfirst, hsecond⟩ := cornerCoefficient_values
  rw [Spectrum.ofPlane, Spectrum.lowest_eq_ofFn]
  exact Scalar.standardDeviation_pos (List.mem_ofFn.2 ⟨⟨0, by decide⟩, rfl⟩)
    (List.mem_ofFn.2 ⟨⟨1, by decide⟩, rfl⟩) (hsecond ▸ hfirst.ne')

/-- The cosine transform is such a row transform. The light has contrast; made twice as strong
and raised by ten it keeps its hash, and none of it is left without any strength. -/
theorem unchanged_by_brightness_cornerLight :
    IsCosineLike (Cosine.row exactAngles : Vector ℝ Plane.samples → Vector ℝ Plane.samples) ∧
      (0 : ℝ) < 2 ∧
      (∃ f, ofPlane (Cosine.row exactAngles) cornerLight = .ok f ∧ 0 < f.energy ∧
        ofPlane (Cosine.row exactAngles) (cornerLight.adjusted 2 10) =
          .ok ⟨f.hash, 2 * f.energy⟩) ∧
      (∀ i, (cornerLight.adjusted 0 7).pixels.get i = 7) ∧
      ∃ f, ofPlane (Cosine.row exactAngles) (cornerLight.adjusted 0 7) = .ok f ∧
        f.hash = ⟨BitVec.allOnes 256⟩ ∧ f.energy = 0 ∧ f.quality = 0 := by
  have hflat (i : Fin (64 * 64)) : (cornerLight.adjusted 0 7).pixels.get i = 7 := by
    refine (get_map _ _ i).trans ?_
    norm_num
  obtain ⟨hscaled, hzero⟩ := unchanged_by_brightness isCosineLike_exact
  obtain ⟨-, f, hf, hstronger⟩ := hscaled cornerLight 2 10 (by decide) (by decide) (by decide)
    (by decide) (by norm_num)
  have henergy : 0 < f.energy := by
    rw [ofPlane_eq_ok (p := cornerLight) (by decide) (by decide) (by decide) (by decide)] at hf
    exact Except.ok.inj hf ▸ energy_cornerLight
  obtain ⟨-, g, -, hbits, hnone, hquality, hflatHash⟩ :=
    hzero (cornerLight.adjusted 0 7) 7 (by decide) (by decide) hflat
  exact ⟨isCosineLike_exact, by norm_num, ⟨f, hf, henergy, hstronger⟩, hflat, g,
    hflatHash (by decide) (by decide), hbits, hnone, hquality⟩

end FrameHash

end VideoFingerprint
