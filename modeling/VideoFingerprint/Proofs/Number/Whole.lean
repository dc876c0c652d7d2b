import VideoFingerprint.Proofs.Number.Addition

/-!
Whole numbers among the doubles. A whole number of at most 53 bits is a double, and a double
that is not too large is cut off to the whole number below it. What an operation rounds away is
at most the `2 ^ 53`rd part of the exact result, unless that is subnormal.
-/

namespace VideoFingerprint.Binary64

open Float.Model Float.Model.UnpackedFloat

variable {x y : Float} {n : ℕ}

/-! ### Exact numbers -/

/-- A significand of at most 53 bits, moved up by any number of places, is the
magnitude of a pattern. -/
theorem exists_patternMagnitude_eq {m : ℕ} (hm : m ≤ 2 * smallestNormal) (k : ℕ) :
    ∃ b, patternMagnitude b = m * 2 ^ k := by
  induction k with
  | zero =>
      have hself := patternMagnitude_binade hm (.inl rfl : 0 = 0 ∨ smallestNormal ≤ m)
      exact ⟨_, hself⟩
  | succ k ih =>
      obtain ⟨b, hb⟩ := ih
      obtain ⟨c, hc, -⟩ := exists_twice_patternMagnitude b
      exact ⟨c, by rw [hc, hb]; ring⟩

/-- A whole number of at most 53 bits is a double. -/
theorem patternMagnitude_nearestPattern_whole (hn : n ≤ 2 ^ 53) :
    patternMagnitude (nearestPattern (n * unit) 1) = n * unit := by
  have hdouble : 2 * smallestNormal = 2 ^ 53 := by rw [smallestNormal_eq]; ring
  obtain ⟨b, hb⟩ := exists_patternMagnitude_eq (hn.trans hdouble.ge) 1074
  rw [← unit_eq] at hb
  have hbelow : b ≤ infinityPattern := by
    by_contra hbeyond
    have hlt := strictMono_patternMagnitude (not_le.1 hbeyond)
    rw [hb] at hlt
    have hmono := nearestPattern_mono Nat.one_pos Nat.one_pos (Nat.mul_le_mul_right 1 hlt.le)
    have hinfinite := nearestPattern_patternMagnitude Nat.one_pos (le_refl infinityPattern)
    rw [Nat.mul_one] at hinfinite
    rw [hinfinite] at hmono
    exact hmono.not_gt (nearestPattern_mul_unit_lt (hn.trans (by norm_num)))
  have hself := nearestPattern_patternMagnitude Nat.one_pos hbelow
  rw [Nat.mul_one, hb] at hself
  rw [hself, hb]

theorem magnitude_ofNat (hn : n ≤ 2 ^ 53) : magnitude (Float.ofNat n) = n * unit := by
  rw [magnitude, pattern_ofNat, patternMagnitude_nearestPattern_whole hn]

theorem magnitude_ofMagnitude_whole (negative : Bool) (hn : n ≤ 2 ^ 53) :
    magnitude (ofMagnitude negative (n * unit)) = n * unit := by
  rw [ofMagnitude, magnitude_ofPattern (nearestPattern_le _ _),
    patternMagnitude_nearestPattern_whole hn]

theorem not_isNaN_of_lt (h : x < y) : x.isNaN = false ∧ y.isNaN = false := by
  rw [lt_iff_compare] at h
  show x.toModel.unpack.isNaN = false ∧ y.toModel.unpack.isNaN = false
  cases hx : x.toModel.unpack <;> cases hy : y.toModel.unpack <;>
    simp_all [UnpackedFloat.compare, UnpackedFloat.isNaN]

/-- A positive number has no sign. -/
theorem isNegative_of_pos (h : 0 < x) : isNegative x = false := by
  have hzero : signedPattern (Float.ofNat 0) = 0 := by
    rw [signedPattern, isNegative_ofNat, pattern_ofNat, Nat.zero_mul,
      nearestPattern_zero Nat.one_pos]
    rfl
  have hlt : signedPattern (Float.ofNat 0) < signedPattern x :=
    (lt_iff (isNaN_eq_false (isFinite_ofNat (Nat.zero_le _))) (not_isNaN_of_lt h).2).1 h
  rw [hzero, signedPattern] at hlt
  cases hsign : isNegative x with
  | false => rfl
  | true =>
      rw [hsign, if_pos rfl] at hlt
      omega

theorem pos_of_le (h : 0 < x) (hxy : x ≤ y) : 0 < y := by
  obtain ⟨hzero, hx⟩ := not_isNaN_of_lt h
  have hy := (not_isNaN_of_le hxy).2
  rw [lt_iff hzero hx] at h
  rw [le_iff hx hy] at hxy
  exact (lt_iff hzero hy).2 (h.trans_le hxy)

/-- Doubles without a sign are ordered as their magnitudes are. -/
theorem le_iff_magnitude_le (hx : x.isFinite = true) (hy : y.isFinite = true)
    (hx₀ : isNegative x = false) (hy₀ : isNegative y = false) :
    x ≤ y ↔ magnitude x ≤ magnitude y := by
  have hsigned {z : Float} (hz : isNegative z = false) : signedPattern z = pattern z := by
    rw [signedPattern, hz]
    rfl
  rw [le_iff (isNaN_eq_false hx) (isNaN_eq_false hy), hsigned hx₀, hsigned hy₀, Nat.cast_le]
  exact strictMono_patternMagnitude.le_iff_le.symm

/-! ### Halves -/

/-- Patterns of one binade and the next belong to numbers and their doubles, if they are
not subnormal. -/
theorem patternMagnitude_eq_two_mul {b : ℕ} (hb : 2 * smallestNormal ≤ b) :
    patternMagnitude b = 2 * patternMagnitude (b - smallestNormal) := by
  obtain ⟨s, r, hsplit, hr, hs, -⟩ := exists_binade b
  have hpos := smallestNormal_pos
  obtain ⟨t, rfl⟩ : ∃ t, s = t + 1 := by
    refine Nat.exists_eq_succ_of_ne_zero fun hzero => ?_
    rw [hzero] at hsplit
    omega
  have hnormal : smallestNormal ≤ r := hs.resolve_left (Nat.succ_ne_zero t)
  have hbelow : b - smallestNormal = t * smallestNormal + r := by
    rw [hsplit, Nat.succ_mul]
    omega
  rw [hbelow, hsplit, patternMagnitude_binade hr.le (.inr hnormal),
    patternMagnitude_binade hr.le (.inr hnormal)]
  ring

/-- Halving is exact, unless it leads to a subnormal number. -/
theorem two_mul_magnitude_half (hx : x.isFinite = true) (hx₀ : isNegative x = false)
    (hlarge : 2 * smallestNormal ≤ magnitude x) :
    (x / 2).isFinite = true ∧ isNegative (x / 2) = false ∧
    2 * magnitude (x / 2) = magnitude x := by
  have hpattern : 2 * smallestNormal ≤ pattern x := by
    have hedge := patternMagnitude_binade (s := 0) (le_refl (2 * smallestNormal)) (.inl rfl)
    rw [Nat.zero_mul, Nat.zero_add, Nat.pow_zero, Nat.mul_one] at hedge
    exact strictMono_patternMagnitude.le_iff_le.1 (hedge.trans_le hlarge)
  have hhalf := patternMagnitude_eq_two_mul hpattern
  have hfinite := isFinite_iff.1 hx
  have hbelow : pattern x - smallestNormal < infinityPattern :=
    (Nat.sub_le _ _).trans_lt hfinite
  have hself := nearestPattern_patternMagnitude (Nat.mul_pos Nat.two_pos unit_pos) hbelow.le
  have hscale (m : ℕ) : 2 * m * unit = m * (2 * unit) := by ring
  have heq : x / 2 = ofPattern false (pattern x - smallestNormal) := by
    show x / Float.ofNat 2 = _
    rw [div_eq hx (isFinite_ofNat (by norm_num)) (pattern_ofNat_pos Nat.two_pos), hx₀,
      isNegative_ofNat, ofQuotient, magnitude_ofNat (by norm_num), magnitude, hhalf,
      hscale, hself]
    rfl
  rw [heq, isFinite_iff, pattern_ofPattern hbelow.le, isNegative_ofPattern hbelow.le,
    magnitude_ofPattern hbelow.le]
  exact ⟨hbelow, rfl, hhalf.symm⟩

/-! ### Rounding errors -/

/-- The step from a pattern to the next one is small compared with its magnitude, unless
it is subnormal. -/
theorem smallestNormal_mul_step_le (b : ℕ) :
    2 ^ (b / smallestNormal - 1) = 1 ∨
    smallestNormal * 2 ^ (b / smallestNormal - 1) ≤ patternMagnitude b := by
  obtain ⟨s, r, hsplit, hr, hs, hexponent⟩ := exists_binade b
  rw [← hexponent]
  rcases hs with rfl | hnormal
  · exact .inl rfl
  · rw [hsplit, patternMagnitude_binade hr.le (.inr hnormal)]
    exact .inr (Nat.mul_le_mul_right _ hnormal)

/-- The nearest double is off by at most the `2 ^ 53`rd part of a quotient that is
not subnormal. -/
theorem nearestPattern_error {num den : ℕ} (hden : 0 < den)
    (hnormal : smallestNormal * den ≤ num)
    (hfinite : nearestPattern num den < infinityPattern) :
    2 ^ 53 * |(patternMagnitude (nearestPattern num den) * den : ℤ) - num| ≤ num := by
  have hround : Rounds patternMagnitude num den (unboundedPattern num den) :=
    rounds_unboundedPattern hden
  have hunbounded : unboundedPattern num den < infinityPattern :=
    (min_lt_iff.1 hfinite).resolve_left (lt_irrefl infinityPattern)
  rw [nearestPattern_eq_min, min_eq_right hunbounded.le]
  generalize unboundedPattern num den = b at hround ⊢
  have hhalf (step : ℕ) (hstep : smallestNormal * (step * den) ≤ num)
      (hdiff : 2 * |(patternMagnitude b * den : ℤ) - num| ≤ (step * den : ℕ)) :
      2 ^ 53 * |(patternMagnitude b * den : ℤ) - num| ≤ num := by
    rw [smallestNormal_eq] at hstep
    have : (2 ^ 52 * (step * den : ℕ) : ℤ) ≤ num := by exact_mod_cast hstep
    linarith
  rcases le_or_gt (patternMagnitude b * den) num with hbelow | habove
  · refine hhalf (2 ^ (b / smallestNormal - 1)) ?_ ?_
    · rcases smallestNormal_mul_step_le b with hone | hle
      · rwa [hone, Nat.one_mul]
      · rw [← Nat.mul_assoc]
        exact (Nat.mul_le_mul_right den hle).trans hbelow
    · have hhigh := hround.high
      rw [patternMagnitude_succ] at hhigh
      have hsign : (patternMagnitude b * den : ℤ) - num ≤ 0 := by
        have : (patternMagnitude b * den : ℤ) ≤ num := by exact_mod_cast hbelow
        linarith
      rw [abs_of_nonpos hsign]
      have hhigh : (2 * num : ℤ) ≤
          (patternMagnitude b + (patternMagnitude b + 2 ^ (b / smallestNormal - 1))) *
            den := by
        exact_mod_cast hhigh
      push_cast
      linarith
  · obtain ⟨c, rfl⟩ : ∃ c, b = c + 1 := by
      refine Nat.exists_eq_succ_of_ne_zero fun hzero => ?_
      rw [hzero, patternMagnitude_zero, Nat.zero_mul] at habove
      exact absurd habove (Nat.not_lt_zero _)
    have hlow := hround.low
    rw [Nat.add_sub_cancel, patternMagnitude_succ] at hlow
    refine hhalf (2 ^ (c / smallestNormal - 1)) ?_ ?_
    · rcases smallestNormal_mul_step_le c with hone | hle
      · rwa [hone, Nat.one_mul]
      · have := Nat.mul_le_mul_right den hle
        rw [← Nat.mul_assoc]
        nlinarith
    · have hsign : 0 ≤ (patternMagnitude (c + 1) * den : ℤ) - num := by
        have : (num : ℤ) < patternMagnitude (c + 1) * den := by exact_mod_cast habove
        linarith
      rw [abs_of_nonneg hsign, patternMagnitude_succ]
      have hlow : (patternMagnitude c + (patternMagnitude c + 2 ^ (c / smallestNormal - 1))) *
          den ≤ (2 * num : ℤ) := by
        exact_mod_cast hlow
      push_cast
      linarith

/-! ### Cutting off -/

theorem standsFor_exact (m : ℕ) : StandsFor (.ofMantissaAndAccuracy m .exact) m 1 := by
  have hself : StandsFor (.ofMantissaAndAccuracy (m / 1) (accuracyOfFraction (m % 1) 1)) m 1 :=
    standsFor_ofMantissaAndAccuracy Nat.one_pos
  rwa [Nat.div_one, Nat.mod_one, accuracyOfFraction, if_pos rfl] at hself

theorem roundToInt_positive (m d : ℕ) :
    UnpackedFloat.roundToInt .positive m (d - 1074) = (m * 2 ^ d / unit : ℕ) := by
  simp only [UnpackedFloat.roundToInt, decreaseExponent, shiftToExponent, Nat.shiftLeft_eq,
    Sign.apply]
  rw [((standsFor_exact _).shiftRight Nat.one_pos _).mantissa, Nat.one_mul, unit_eq]
  rcases Nat.le_total 1074 d with hle | hle
  · obtain ⟨k, rfl⟩ := Nat.exists_eq_add_of_le hle
    have hup : (((1074 + k : ℕ) : ℤ) - 1074 - 0).toNat = k := by omega
    have hdown : (0 - (((1074 + k : ℕ) : ℤ) - 1074 - k)).toNat = 0 := by omega
    rw [hup, hdown, pow_zero, Nat.div_one, pow_add, mul_left_comm,
      Nat.mul_div_cancel_left _ (Nat.two_pow_pos _)]
  · obtain ⟨k, hk⟩ := Nat.exists_eq_add_of_le hle
    have hup : ((d : ℤ) - 1074 - 0).toNat = 0 := by omega
    have hdown : (0 - ((d : ℤ) - 1074 - (0 : ℕ))).toNat = k := by omega
    rw [hup, hdown, hk, pow_zero, Nat.mul_one, Nat.pow_add, Nat.mul_comm m,
      Nat.mul_div_mul_left _ _ (Nat.two_pow_pos _)]

/-- A double without a sign is cut off to the whole number below it, if that has 32 bits. -/
theorem toNat_toUInt32 (hx : x.isFinite = true) (hx₀ : isNegative x = false)
    (hlt : magnitude x / unit < UInt32.size) : x.toUInt32.toNat = magnitude x / unit := by
  show (UInt32.ofNatClamp (x.toModel.unpack.toInt 0 (UInt32.size - 1)).toNat).toNat = _
  have hint : x.toModel.unpack.toInt 0 (UInt32.size - 1) = (magnitude x / unit : ℕ) := by
    have hunpacks := unpacks x
    rw [hx₀] at hunpacks
    rcases hunpacks.eq_zero_or_finite (isFinite_iff.1 hx) with
      ⟨hzero, hunpacked⟩ | ⟨m, d, hm, hunpacked, hmag, -⟩
    · rw [hunpacked, magnitude, hzero, patternMagnitude_zero, Nat.zero_div]
      rfl
    · rw [hunpacked, magnitude, hmag]
      exact roundToInt_positive m d
  rw [hint, Int.toNat_natCast, UInt32.ofNatClamp, dif_pos hlt]
  exact UInt32.toNat_ofNatLT

theorem toNat_toUInt32_whole (hn : n < UInt32.size) :
    (ofMagnitude false (n * unit)).toUInt32.toNat = n := by
  have hcut : magnitude (ofMagnitude false (n * unit)) / unit = n := by
    rw [magnitude_ofMagnitude_whole false (hn.le.trans (by norm_num)),
      Nat.mul_div_cancel _ unit_pos]
  have hfinite : (ofMagnitude false (n * unit)).isFinite = true :=
    isFinite_ofPattern (nearestPattern_mul_unit_lt (hn.le.trans (by norm_num)))
  have hsign : isNegative (ofMagnitude false (n * unit)) = false :=
    isNegative_ofPattern (nearestPattern_le _ _)
  rw [toNat_toUInt32 hfinite hsign (hcut.trans_lt hn), hcut]

end VideoFingerprint.Binary64
