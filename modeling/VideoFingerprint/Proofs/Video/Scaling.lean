import VideoFingerprint.Proofs.Number.Whole
import VideoFingerprint.Video.Opening

/-!
Scaling frames down. The factor and the scaled side are rounded, by so little that the longer
side comes to the limit up to far less than one pixel, and the sides keep their order. The last
step rounds to an even side: an even limit is kept exactly, and an odd one is missed by one, to
the side on which the rounded product lies, where the limit itself counts as above.
-/

namespace VideoFingerprint.DecodeRequest

open Binary64

/-- A longer side that is beyond a limit other than zero; sides have 32 bits. -/
structure Exceeds (limit longest : ℕ) : Prop where
  one_le : 1 ≤ limit
  lt : limit < longest
  fits : longest < UInt32.size

def factor (limit longest : ℕ) : Float := Float.ofNat limit / Float.ofNat longest

variable {limit longest side : ℕ}

namespace Exceeds

variable (h : Exceeds limit longest)
include h

theorem longest_le : longest ≤ 2 ^ 32 := h.fits.le

theorem longest_pos : 0 < longest := (Nat.zero_le limit).trans_lt h.lt

theorem limit_le : limit ≤ 2 ^ 32 := h.lt.le.trans h.longest_le

/-! ### The factor -/

theorem factor_eq :
    factor limit longest = ofPattern false (nearestPattern (limit * unit) longest) := by
  have hlimit := h.limit_le
  have hlongest := h.longest_le
  have hcancel : nearestPattern (limit * unit * unit) (longest * unit) =
      nearestPattern (limit * unit) longest :=
    nearestPattern_congr (Nat.mul_pos h.longest_pos unit_pos) h.longest_pos (by ring)
  rw [factor, div_ofNat_eq (by omega) (by omega) h.longest_pos, magnitude_ofNat (by omega),
    magnitude_ofNat (by omega), hcancel]

theorem nearestPattern_factor_lt :
    nearestPattern (limit * unit) longest < infinityPattern := by
  have hone : nearestPattern (1 * unit) 1 < infinityPattern :=
    nearestPattern_mul_unit_lt (by norm_num)
  refine lt_of_le_of_lt ?_ hone
  apply nearestPattern_mono h.longest_pos Nat.one_pos
  calc
    limit * unit * 1 = limit * unit := Nat.mul_one _
    _ ≤ longest * unit := Nat.mul_le_mul_right _ h.lt.le
    _ = 1 * unit * longest := by ring

theorem isFinite_factor : (factor limit longest).isFinite = true := by
  rw [h.factor_eq]
  exact isFinite_ofPattern h.nearestPattern_factor_lt

theorem isNegative_factor : isNegative (factor limit longest) = false := by
  rw [h.factor_eq, isNegative_ofPattern (nearestPattern_le _ _)]

theorem factor_error :
    2 ^ 53 * |(magnitude (factor limit longest) * longest : ℤ) - limit * unit| ≤
      limit * unit := by
  have hlarge : smallestNormal * 2 ^ 32 ≤ unit := by decide +kernel
  have hnormal : smallestNormal * longest ≤ limit * unit := by
    calc
      smallestNormal * longest ≤ smallestNormal * 2 ^ 32 := Nat.mul_le_mul_left _ h.longest_le
      _ ≤ unit := hlarge
      _ ≤ limit * unit := Nat.le_mul_of_pos_left _ h.one_le
  rw [h.factor_eq, magnitude_ofPattern (nearestPattern_le _ _)]
  exact_mod_cast nearestPattern_error h.longest_pos hnormal h.nearestPattern_factor_lt

/-- The factor is not too small to be scaled with. -/
theorem le_magnitude_factor : 2 ^ 64 ≤ magnitude (factor limit longest) := by
  have herror := h.factor_error
  have habs := neg_abs_le (magnitude (factor limit longest) * longest - limit * unit : ℤ)
  have hlarge : 2 * (2 ^ 64 * 2 ^ 32) ≤ unit := by decide +kernel
  have hlimit : (unit : ℤ) ≤ limit * unit := by
    exact_mod_cast Nat.le_mul_of_pos_left unit h.one_le
  by_contra hsmall
  have hproduct : magnitude (factor limit longest) * longest ≤ 2 ^ 64 * 2 ^ 32 :=
    Nat.mul_le_mul (not_le.1 hsmall).le h.longest_le
  have hproduct : (2 * (magnitude (factor limit longest) * longest) : ℤ) ≤ unit := by
    exact_mod_cast (Nat.mul_le_mul_left 2 hproduct).trans hlarge
  have hunit : (0 : ℤ) < unit := by exact_mod_cast unit_pos
  linarith

/-! ### A scaled side -/

variable (hside : side ≤ longest)
include hside

theorem product_eq : Float.ofNat side * factor limit longest =
    ofPattern false (nearestPattern (side * magnitude (factor limit longest)) 1) := by
  have hlongest := h.longest_le
  have hcancel : nearestPattern (side * unit * magnitude (factor limit longest)) unit =
      nearestPattern (side * magnitude (factor limit longest)) 1 :=
    nearestPattern_congr unit_pos Nat.one_pos (by ring)
  rw [mul_eq (isFinite_ofNat (by omega)) h.isFinite_factor, isNegative_ofNat,
    h.isNegative_factor, magnitude_ofNat (by omega), hcancel]
  rfl

/-- No side becomes longer than about the limit. -/
theorem side_mul_factor_le : side * magnitude (factor limit longest) ≤ 2 * limit * unit := by
  have herror := h.factor_error
  have habs := le_abs_self (magnitude (factor limit longest) * longest - limit * unit : ℤ)
  have hlongest : (magnitude (factor limit longest) * longest : ℤ) ≤ 2 * limit * unit := by
    have hnonneg : (0 : ℤ) ≤ limit * unit :=
      mul_nonneg (Int.natCast_nonneg _) (Int.natCast_nonneg _)
    linarith
  calc
    side * magnitude (factor limit longest) ≤ longest * magnitude (factor limit longest) :=
      Nat.mul_le_mul_right _ hside
    _ = magnitude (factor limit longest) * longest := Nat.mul_comm _ _
    _ ≤ 2 * limit * unit := by exact_mod_cast hlongest

theorem nearestPattern_product_lt :
    nearestPattern (side * magnitude (factor limit longest)) 1 < infinityPattern := by
  have hlimit := h.limit_le
  have hbound : nearestPattern (2 * limit * unit) 1 < infinityPattern :=
    nearestPattern_mul_unit_lt (by omega)
  refine lt_of_le_of_lt ?_ hbound
  apply nearestPattern_mono Nat.one_pos Nat.one_pos
  exact Nat.mul_le_mul_right 1 (h.side_mul_factor_le hside)

theorem isFinite_product : (Float.ofNat side * factor limit longest).isFinite = true := by
  rw [h.product_eq hside]
  exact isFinite_ofPattern (h.nearestPattern_product_lt hside)

theorem isNegative_product : isNegative (Float.ofNat side * factor limit longest) = false := by
  rw [h.product_eq hside, isNegative_ofPattern (nearestPattern_le _ _)]

theorem product_error (hpos : 1 ≤ side) :
    2 ^ 53 * |(magnitude (Float.ofNat side * factor limit longest) : ℤ) - side *
      magnitude (factor limit longest)| ≤
      side * magnitude (factor limit longest) := by
  have hnormal : smallestNormal * 1 ≤ side * magnitude (factor limit longest) := by
    have hlarge : smallestNormal * 1 ≤ 2 ^ 64 := by decide
    exact (hlarge.trans h.le_magnitude_factor).trans (Nat.le_mul_of_pos_left _ hpos)
  have herror := nearestPattern_error Nat.one_pos hnormal (h.nearestPattern_product_lt hside)
  rw [h.product_eq hside, magnitude_ofPattern (nearestPattern_le _ _)]
  rw [Nat.cast_one, mul_one] at herror
  exact_mod_cast herror

theorem magnitude_product_mono {shorter : ℕ} (hle : shorter ≤ side) :
    magnitude (Float.ofNat shorter * factor limit longest) ≤
      magnitude (Float.ofNat side * factor limit longest) := by
  rw [h.product_eq hside, h.product_eq (hle.trans hside),
    magnitude_ofPattern (nearestPattern_le _ _), magnitude_ofPattern (nearestPattern_le _ _)]
  apply strictMono_patternMagnitude.monotone
  apply nearestPattern_mono Nat.one_pos Nat.one_pos
  exact Nat.mul_le_mul_right 1 (Nat.mul_le_mul_right _ hle)

omit hside in
/-- The longer side comes very near to the limit. -/
theorem limit_error :
    2 ^ 53 * |(magnitude (Float.ofNat longest * factor limit longest) : ℤ) - limit * unit| ≤
      3 * (limit * unit) := by
  have hfactor := h.factor_error
  have hproduct := h.product_error le_rfl h.longest_pos
  rw [mul_comm (magnitude _ : ℤ)] at hfactor
  have htriangle := abs_sub_le (magnitude (Float.ofNat longest * factor limit longest) : ℤ)
    (longest * magnitude (factor limit longest)) (limit * unit)
  have habs := le_abs_self (longest * magnitude (factor limit longest) - limit * unit : ℤ)
  have hnonneg : (0 : ℤ) ≤ limit * unit :=
    mul_nonneg (Int.natCast_nonneg _) (Int.natCast_nonneg _)
  linarith

theorem magnitude_product_le :
    magnitude (Float.ofNat side * factor limit longest) ≤ 2 * limit * unit := by
  have herror := h.limit_error
  have habs :=
    le_abs_self (magnitude (Float.ofNat longest * factor limit longest) - limit * unit : ℤ)
  have hnonneg : (0 : ℤ) ≤ limit * unit :=
    mul_nonneg (Int.natCast_nonneg _) (Int.natCast_nonneg _)
  have hlongest : (magnitude (Float.ofNat longest * factor limit longest) : ℤ) ≤
      2 * limit * unit := by linarith
  exact (h.magnitude_product_mono le_rfl hside).trans (by exact_mod_cast hlongest)

/-- A scaled side is the even number nearest to the rounded product, an odd number counting as
nearer to the one above. -/
theorem scaledSide_eq (hpos : 1 ≤ side) : scaledSide (factor limit longest) side =
    max 2 ((magnitude (Float.ofNat side * factor limit longest) + unit) / (2 * unit) * 2) := by
  have hlarge : 2 * smallestNormal ≤ magnitude (Float.ofNat side * factor limit longest) := by
    have herror := h.product_error hside hpos
    have habs := neg_abs_le
      (magnitude (Float.ofNat side * factor limit longest) - side *
        magnitude (factor limit longest) : ℤ)
    have hfactor : 1 * 2 ^ 64 ≤ side * magnitude (factor limit longest) :=
      Nat.mul_le_mul hpos h.le_magnitude_factor
    have hfactor : (2 ^ 64 : ℤ) ≤ side * magnitude (factor limit longest) := by
      exact_mod_cast hfactor
    have hbound : (2 * smallestNormal : ℤ) ≤
        magnitude (Float.ofNat side * factor limit longest) := by
      rw [smallestNormal_eq]
      push_cast
      linarith
    exact_mod_cast hbound
  obtain ⟨hfinite, hsign, hhalf⟩ :=
    two_mul_magnitude_half (h.isFinite_product hside) (h.isNegative_product hside) hlarge
  have hbound := h.magnitude_product_le hside
  have hwhole : (magnitude (Float.ofNat side * factor limit longest) + unit) / (2 * unit) <
      UInt32.size := by
    have hfits : limit + 1 < UInt32.size := (Nat.succ_le_of_lt h.lt).trans_lt h.fits
    apply Nat.div_lt_of_lt_mul
    calc
      magnitude (Float.ofNat side * factor limit longest) + unit ≤ 2 * limit * unit + unit :=
        Nat.add_le_add_right hbound unit
      _ = unit * (2 * limit + 1) := by ring
      _ < unit * (2 * UInt32.size) := Nat.mul_lt_mul_of_pos_left (by omega) unit_pos
      _ = 2 * unit * UInt32.size := by ring
  rw [scaledSide, roundHalfAway, if_pos hfinite, hsign, wholeHalfUp, divHalfUp, hhalf]
  rw [toNat_toUInt32_whole hwhole]

end Exceeds

/-! ### The longer side -/

/-- The even number nearest to a product that is very near to the limit. -/
theorem nearestEven_of_near {product unit : ℕ} (hunit : 0 < unit) (hlimit : limit ≤ 2 ^ 32)
    (hnear : 2 ^ 53 * |(product : ℤ) - limit * unit| ≤ 3 * (limit * unit)) :
    (product + unit) / (2 * unit) * 2 =
      if 2 ∣ limit then limit else if limit * unit ≤ product then limit + 1
      else limit - 1 := by
  have hclose : 2 * |(product : ℤ) - (limit * unit : ℕ)| < unit := by
    have hle : (limit * unit : ℤ) ≤ 2 ^ 32 * unit := by
      exact_mod_cast Nat.mul_le_mul_right unit hlimit
    have hpos : (0 : ℤ) < unit := by exact_mod_cast hunit
    push_cast
    linarith
  have hlow := neg_abs_le ((product : ℤ) - (limit * unit : ℕ))
  have hhigh := le_abs_self ((product : ℤ) - (limit * unit : ℕ))
  have hdiv {k : ℕ} (hle : 2 * (k * unit) ≤ product + unit)
      (hlt : product < 2 * (k * unit) + unit) :
      (product + unit) / (2 * unit) = k := by
    apply Nat.div_eq_of_lt_le
    · calc
        k * (2 * unit) = 2 * (k * unit) := by ring
        _ ≤ product + unit := hle
    · calc
        product + unit < 2 * (k * unit) + unit + unit := Nat.add_lt_add_right hlt unit
        _ = (k + 1) * (2 * unit) := by ring
  obtain ⟨k, rfl | rfl⟩ := limit.even_or_odd'
  · rw [if_pos (Nat.dvd_mul_right 2 k)]
    rw [Nat.mul_assoc] at hclose hlow hhigh
    rw [hdiv (k := k) (by omega) (by omega), Nat.mul_comm]
  · rw [if_neg (by omega)]
    have hsplit : (2 * k + 1) * unit = 2 * (k * unit) + unit := by ring
    rw [hsplit] at hclose hlow hhigh ⊢
    have hnext : (k + 1) * unit = k * unit + unit := by ring
    split
    · rw [hdiv (k := k + 1) (by omega) (by omega)]
      omega
    · rw [hdiv (k := k) (by omega) (by omega)]
      omega

/-- The limit is odd, and the rounded product of the longer side and the factor
is not below it. -/
def Overshoots (limit longest : ℕ) : Prop :=
  ¬ 2 ∣ limit ∧ Float.ofNat limit ≤ Float.ofNat longest * factor limit longest

theorem Exceeds.scaledSide_longest (h : Exceeds limit longest) :
    scaledSide (factor limit longest) longest =
    max 2 (if 2 ∣ limit then limit
      else if Float.ofNat limit ≤ Float.ofNat longest * factor limit longest then
        limit + 1 else limit - 1) := by
  have hlimit := h.limit_le
  have hreaches : Float.ofNat limit ≤ Float.ofNat longest * factor limit longest ↔
      limit * unit ≤ magnitude (Float.ofNat longest * factor limit longest) := by
    rw [le_iff_magnitude_le (isFinite_ofNat (by omega)) (h.isFinite_product le_rfl)
      (isNegative_ofNat _)
      (h.isNegative_product le_rfl), magnitude_ofNat (by omega)]
  rw [h.scaledSide_eq le_rfl h.longest_pos, nearestEven_of_near unit_pos hlimit h.limit_error]
  simp only [hreaches]

theorem Exceeds.scaledSide_longest_of_two_le (h : Exceeds limit longest) (htwo : 2 ≤ limit) :
    scaledSide (factor limit longest) longest =
      if 2 ∣ limit then limit
      else if Float.ofNat limit ≤ Float.ofNat longest * factor limit longest then
        limit + 1 else limit - 1 := by
  rw [h.scaledSide_longest]
  split
  · exact max_eq_right htwo
  · split <;> exact max_eq_right (by omega)

theorem Exceeds.scaledSide_mono (h : Exceeds limit longest) {shorter : ℕ} (hpos : 1 ≤ shorter)
    (hle : shorter ≤ side) (hside : side ≤ longest) :
    scaledSide (factor limit longest) shorter ≤ scaledSide (factor limit longest) side := by
  rw [h.scaledSide_eq hside (hpos.trans hle), h.scaledSide_eq (hle.trans hside) hpos]
  apply max_le_max_left
  apply Nat.mul_le_mul_right
  apply Nat.div_le_div_right
  exact Nat.add_le_add_right (h.magnitude_product_mono hside hle) unit

theorem two_dvd_scaledSide (scale : Float) (side : ℕ) : 2 ∣ scaledSide scale side := by
  rw [scaledSide]
  generalize UInt32.toNat _ = n
  rcases max_choice 2 (n * 2) with heq | heq <;> rw [heq]
  exact Nat.dvd_mul_left 2 n

theorem two_le_scaledSide (scale : Float) (side : ℕ) : 2 ≤ scaledSide scale side :=
  le_max_left 2 _

/-! ### All limits -/

/-- A side without an extent, and a side scaled by zero, are raised to two. -/
theorem scaledSide_of_mul_eq_zero {scale : Float} (hscale : scale.isFinite = true)
    (hsign : isNegative scale = false) (hside : side ≤ 2 ^ 53)
    (hzero : side * magnitude scale = 0) : scaledSide scale side = 2 := by
  have hproduct : Float.ofNat side * scale = ofPattern false 0 := by
    rw [mul_eq (isFinite_ofNat (by omega)) hscale, isNegative_ofNat, hsign,
      magnitude_ofNat hside, Nat.mul_right_comm, hzero, Nat.zero_mul,
      nearestPattern_zero unit_pos]
    rfl
  rw [scaledSide, hproduct]
  decide +kernel

theorem factor_zero (hpos : 0 < longest) (hfits : longest < UInt32.size) :
    factor 0 longest = ofPattern false 0 := by
  have hlongest : longest ≤ 2 ^ 32 := hfits.le
  have hden : 0 < longest * unit := Nat.mul_pos hpos unit_pos
  rw [factor, div_ofNat_eq (by omega) (by omega) hpos, magnitude_ofNat (by omega),
    magnitude_ofNat (by omega), Nat.zero_mul, Nat.zero_mul, nearestPattern_zero hden]

/-- A scaled side exceeds the limit by no more than one, where it is not raised to two. -/
theorem scaledSide_factor_le (hlt : limit < longest) (hfits : longest < UInt32.size)
    (hside : side ≤ longest) :
    scaledSide (factor limit longest) side ≤ max 2 (limit + 1) := by
  have hlongest : longest ≤ 2 ^ 32 := hfits.le
  rcases Nat.eq_zero_or_pos limit with rfl | hlimit
  · have hclosed : (ofPattern false 0).isFinite = true ∧
      isNegative (ofPattern false 0) = false ∧
        magnitude (ofPattern false 0) = 0 := by decide +kernel
    rw [factor_zero hlt hfits]
    refine (scaledSide_of_mul_eq_zero hclosed.1 hclosed.2.1 (by omega) ?_).trans_le
      (le_max_left 2 _)
    rw [hclosed.2.2, Nat.mul_zero]
  · have h : Exceeds limit longest := ⟨hlimit, hlt, hfits⟩
    rcases Nat.eq_zero_or_pos side with rfl | hpos
    · refine (scaledSide_of_mul_eq_zero h.isFinite_factor h.isNegative_factor (Nat.zero_le _)
        ?_).trans_le
        (le_max_left 2 _)
      rw [Nat.zero_mul]
    · calc
        scaledSide (factor limit longest) side ≤ scaledSide (factor limit longest) longest :=
          h.scaledSide_mono hpos hside le_rfl
        _ = max 2 _ := h.scaledSide_longest
        _ ≤ max 2 (limit + 1) := by
          apply max_le_max_left
          split
          · exact limit.le_succ
          · split <;> omega

/-! ### Both sides -/

variable {width height : ℕ}

theorem outputSize_of_le (h : max width height ≤ limit) :
    outputSize (some limit) width height = (width, height) :=
  if_pos (.inl h)

theorem outputSize_of_lt (h : limit < max width height) :
    outputSize (some limit) width height =
      (scaledSide (factor limit (max width height)) width,
        scaledSide (factor limit (max width height)) height) :=
  if_neg (by omega)

/-- The sides of the frames of a video have 32 bits, as its own have, and keep to a
limit up to one. -/
theorem outputSize_sides_lt (maxDimension : Option ℕ) (hwidth : width < UInt32.size)
    (hheight : height < UInt32.size) :
    let size := outputSize maxDimension width height
    size.1 < UInt32.size ∧ size.2 < UInt32.size ∧
      ∀ limit ∈ maxDimension, size.1 ≤ max 2 (limit + 1) ∧ size.2 ≤ max 2 (limit + 1) := by
  intro size
  cases maxDimension with
  | none => exact ⟨hwidth, hheight, nofun⟩
  | some limit =>
      have hlongest : max width height < UInt32.size := max_lt hwidth hheight
      simp only [Option.mem_some, forall_eq']
      rcases le_or_gt (max width height) limit with hle | hlt
      · have hsize : size = (width, height) := outputSize_of_le hle
        have hsides : width ≤ limit ∧ height ≤ limit := max_le_iff.1 hle
        rw [hsize]
        exact ⟨hwidth, hheight, by omega, by omega⟩
      · have hsize : size = _ := outputSize_of_lt hlt
        have hfirst := scaledSide_factor_le hlt hlongest (le_max_left width height)
        have hsecond := scaledSide_factor_le hlt hlongest (le_max_right width height)
        have hbound : max 2 (limit + 1) < UInt32.size :=
          max_lt (by decide) ((Nat.succ_le_of_lt hlt).trans_lt hlongest)
        rw [hsize]
        exact ⟨hfirst.trans_lt hbound, hsecond.trans_lt hbound, hfirst, hsecond⟩

/-- The longer of two scaled sides is the scaled longer side. -/
theorem Exceeds.max_scaledSide (h : Exceeds limit (max width height)) (hwidth : 1 ≤ width)
    (hheight : 1 ≤ height) :
    max (scaledSide (factor limit (max width height)) width)
      (scaledSide (factor limit (max width height)) height) =
      scaledSide (factor limit (max width height)) (max width height) := by
  rcases le_total width height with hle | hle
  · have hmono := h.scaledSide_mono hwidth hle (le_max_right width height)
    rw [max_eq_right hle] at hmono ⊢
    exact max_eq_right hmono
  · have hmono := h.scaledSide_mono hheight hle (le_max_left width height)
    rw [max_eq_left hle] at hmono ⊢
    exact max_eq_left hmono

/-- The size of the frames of a video with sides of 32 bits, scaled down to a limit of at least
two. A video that fits keeps its size. Any other gets even sides in the order of its own, and
the longer one becomes the limit, if that is even; next to an odd limit it becomes one of the
two even neighbours. So both sides keep to the limit unless it is odd and the rounded product
of the longer side and the factor reaches it. -/
theorem outputSize_limited (hwidth : 1 ≤ width) (hheight : 1 ≤ height)
    (hfits : max width height < UInt32.size) (hlimit : 2 ≤ limit) :
    let longest := max width height
    let size := outputSize (some limit) width height
    1 ≤ size.1 ∧ 1 ≤ size.2 ∧ (longest ≤ limit → size = (width, height)) ∧
      (limit < longest → 2 ∣ size.1 ∧ 2 ∣ size.2 ∧ (width ≤ height → size.1 ≤ size.2) ∧
        (height ≤ width → size.2 ≤ size.1) ∧
        (2 ∣ limit → max size.1 size.2 = limit) ∧
        (¬ 2 ∣ limit → Overshoots limit longest ∧ max size.1 size.2 = limit + 1 ∨
          ¬ Overshoots limit longest ∧ max size.1 size.2 = limit - 1)) ∧
      (size.1 ≤ limit ∧ size.2 ≤ limit ↔ ¬ (limit < longest ∧ Overshoots limit longest)) := by
  intro longest size
  rcases le_or_gt longest limit with hle | hlt
  · have hsize : size = (width, height) := outputSize_of_le hle
    have hsides : width ≤ limit ∧ height ≤ limit := max_le_iff.1 hle
    rw [hsize]
    exact ⟨hwidth, hheight, fun _ => rfl, fun hlt => absurd hle hlt.not_ge,
      iff_of_true hsides fun hbeyond => hbeyond.1.not_ge hle⟩
  · have h : Exceeds limit longest := ⟨one_le_two.trans hlimit, hlt, hfits⟩
    have hsize : size = _ := outputSize_of_lt hlt
    have hmax : max size.1 size.2 = scaledSide (factor limit longest) longest := by
      rw [hsize]
      exact h.max_scaledSide hwidth hheight
    rw [h.scaledSide_longest_of_two_le hlimit] at hmax
    have hone {side : ℕ} : 1 ≤ scaledSide (factor limit longest) side :=
      one_le_two.trans (two_le_scaledSide _ side)
    have hfirst : size.1 = scaledSide (factor limit longest) width := congrArg Prod.fst hsize
    have hsecond : size.2 = scaledSide (factor limit longest) height := congrArg Prod.snd hsize
    refine ⟨hfirst ▸ hone, hsecond ▸ hone,
      fun hle => absurd hle hlt.not_ge, fun _ => ⟨?_, ?_, ?_, ?_, ?_, ?_⟩, ?_⟩
    · exact hfirst ▸ two_dvd_scaledSide _ width
    · exact hsecond ▸ two_dvd_scaledSide _ height
    · intro hle
      rw [hfirst, hsecond]
      exact h.scaledSide_mono hwidth hle (le_max_right width height)
    · intro hle
      rw [hfirst, hsecond]
      exact h.scaledSide_mono hheight hle (le_max_left width height)
    · intro heven
      rw [hmax, if_pos heven]
    · intro hodd
      rw [hmax, if_neg hodd]
      by_cases hreaches : Float.ofNat limit ≤ Float.ofNat longest * factor limit longest
      · exact .inl ⟨⟨hodd, hreaches⟩, if_pos hreaches⟩
      · exact .inr ⟨fun hover => hreaches hover.2, if_neg hreaches⟩
    · rw [← max_le_iff, hmax, Overshoots]
      by_cases heven : 2 ∣ limit
      · simp [heven]
      · by_cases hreaches : Float.ofNat limit ≤ Float.ofNat longest * factor limit longest
        · simp [heven, hreaches, hlt]
        · simp [heven, hreaches]

/-- A picture of 1920 by 1080 pixels, scaled down to 512. -/
theorem outputSize_limited_landscape :
    1 ≤ 1920 ∧ 1 ≤ 1080 ∧ max 1920 1080 < UInt32.size ∧ 2 ≤ 512 ∧
    max (outputSize (some 512) 1920 1080).1 (outputSize (some 512) 1920 1080).2 = 512 := by
  have hlimited :=
    @outputSize_limited 512 1920 1080 (by decide) (by decide) (by decide) (by decide)
  obtain ⟨-, -, -, hscaled, -⟩ := hlimited
  exact ⟨by decide, by decide, by decide, by decide,
    (hscaled (by decide)).2.2.2.2.1 (by decide)⟩

/-- Four pixels exceed a limit of three, and rounding leads back to four. -/
theorem outputSize_beyond_oddLimit : outputSize (some 3) 4 4 = (4, 4) ∧
    ¬ ((outputSize (some 3) 4 4).1 ≤ 3 ∧ (outputSize (some 3) 4 4).2 ≤ 3) := by
  decide +kernel

end VideoFingerprint.DecodeRequest
