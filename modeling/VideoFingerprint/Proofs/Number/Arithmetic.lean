import VideoFingerprint.Proofs.Number.Residual

/-!
Arithmetic on doubles. The product and the quotient of finite doubles are the doubles nearest
to the exact results, and the double of a whole number is the one nearest to it.
-/

namespace VideoFingerprint.Binary64

open Float.Model Float.Model.UnpackedFloat

/-! ### Products and quotients -/

theorem nearestPattern_congr {num₁ den₁ num₂ den₂ : ℕ} (hden₁ : 0 < den₁) (hden₂ : 0 < den₂)
    (h : num₁ * den₂ = num₂ * den₁) : nearestPattern num₁ den₁ = nearestPattern num₂ den₂ :=
  le_antisymm (nearestPattern_mono hden₁ hden₂ h.le) (nearestPattern_mono hden₂ hden₁ h.ge)

theorem nearestPattern_mul_two_pow (n a w : ℕ) :
    nearestPattern (n * 2 ^ a * 2 ^ w) (2 ^ a) = nearestPattern (n * 2 ^ w) 1 :=
  nearestPattern_congr (by positivity) Nat.one_pos (by ring)

theorem nearestPattern_zero {den : ℕ} (hden : 0 < den) : nearestPattern 0 den = 0 := by
  have hround := Rounds.refl strictMono_patternMagnitude hden 0
  rw [patternMagnitude_zero, Nat.zero_mul] at hround
  exact nearestPattern_eq hden hround (Nat.zero_le _)

theorem toNat_pack_roundWithAccuracy_exact (s : Sign) {num k j : ℕ} {e : ℤ}
    (he : (k : ℤ) = e + 1074 + j) (hready : e ≤ num.log2 + e - 52 ∨ e ≤ -1074) :
    (UnpackedFloat.pack .binary64 (roundWithAccuracy .binary64 s num e .exact)).toNat =
      s.toBitVec.toNat * signPattern + nearestPattern (num * 2 ^ k) (2 ^ j) := by
  have htarget : e ≤ Format.binary64.targetExponent (totalExponent (num / 1) e) := by
    rw [targetExponent_totalExponent, Nat.div_one]
    omega
  have hround := toNat_pack_roundWithAccuracy s Nat.one_pos he htarget
  simpa [accuracyOfFraction, Nat.mod_one] using hround

/-- The unpacked form of a finite pattern. -/
theorem Unpacks.eq_zero_or_finite {s : Sign} {b : ℕ} {u : UnpackedFloat} (h : Unpacks s b u)
    (hb : b < infinityPattern) :
    (b = 0 ∧ u = .zero s) ∨ ∃ (m e : ℕ) (hm : 0 < m), u = .finite s m (e - 1074) hm ∧
      patternMagnitude b = m * 2 ^ e ∧ (e = 0 ∨ smallestNormal ≤ m) := by
  cases h with
  | zero => exact .inl ⟨rfl, rfl⟩
  | finite hpos hlt hm he hm₀ =>
      obtain ⟨hsplit, hbound, hcase⟩ := pattern_eq_exponent_mul_add b
      subst hm he
      refine .inr ⟨_, _, hm₀, rfl, ?_, hcase⟩
      conv => lhs; rw [hsplit]
      exact patternMagnitude_binade hbound.le hcase
  | infinity => exact absurd hb (lt_irrefl _)
  | notANumber hnan => exact absurd hb hnan.asymm

theorem Unpacks.toNat_pack_mul {s t : Sign} {b c : ℕ} {u v : UnpackedFloat}
    (hu : Unpacks s b u) (hv : Unpacks t c v) (hb : b < infinityPattern)
    (hc : c < infinityPattern) :
    (UnpackedFloat.pack .binary64 (UnpackedFloat.mul .binary64 u v)).toNat =
      (s * t).toBitVec.toNat * signPattern +
        nearestPattern (patternMagnitude b * patternMagnitude c) unit := by
  have hzero : (UnpackedFloat.pack .binary64 (.zero (s * t))).toNat =
      (s * t).toBitVec.toNat * signPattern + nearestPattern 0 unit := by
    rw [nearestPattern_zero unit_pos]
    exact (Unpacks.zero (s := s * t)).toNat_pack (Nat.zero_le _)
  rcases hu.eq_zero_or_finite hb with ⟨rfl, rfl⟩ | ⟨m, d, hm, rfl, hmag, hcase⟩
  · rw [patternMagnitude_zero, Nat.zero_mul]
    rcases hv.eq_zero_or_finite hc with ⟨-, rfl⟩ | ⟨n, e, hn, rfl, -, -⟩ <;> exact hzero
  · rcases hv.eq_zero_or_finite hc with ⟨rfl, rfl⟩ | ⟨n, e, hn, rfl, hmag', hcase'⟩
    · rw [patternMagnitude_zero, Nat.mul_zero]
      exact hzero
    · have hmn : m * n ≠ 0 := (Nat.mul_pos hm hn).ne'
      have hlog : (d = 0 ∧ e = 0) ∨ 52 ≤ (m * n).log2 := by
        rw [Nat.le_log2 hmn, ← smallestNormal_eq]
        rcases hcase with hd | hm'
        · rcases hcase' with he | hn'
          · exact .inl ⟨hd, he⟩
          · exact .inr (hn'.trans (Nat.le_mul_of_pos_left n hm))
        · exact .inr (hm'.trans (Nat.le_mul_of_pos_right m hn))
      have hexponent : ((d + e : ℕ) : ℤ) = (d - 1074 + (e - 1074)) + 1074 + (1074 : ℕ) := by
        push_cast
        ring
      have hready : ((d : ℤ) - 1074 + (e - 1074)) ≤
          (m * n).log2 + (d - 1074 + (e - 1074)) - 52 ∨
          ((d : ℤ) - 1074 + (e - 1074)) ≤ -1074 := by omega
      have hround := toNat_pack_roundWithAccuracy_exact (s * t) hexponent hready
      rw [UnpackedFloat.mul, hround, hmag, hmag', unit_eq]
      congr 2
      ring

theorem log2_mul_two_pow {m : ℕ} (hm : 0 < m) (a : ℕ) : (m * 2 ^ a).log2 = m.log2 + a := by
  have hlow := Nat.log2_self_le hm.ne'
  have hhigh := Nat.lt_log2_self (n := m)
  rw [Nat.log2_eq_iff (Nat.mul_pos hm (Nat.two_pow_pos a)).ne', pow_add]
  refine ⟨Nat.mul_le_mul_right _ hlow, ?_⟩
  rw [Nat.add_right_comm, pow_add]
  exact Nat.mul_lt_mul_of_pos_right hhigh (Nat.two_pow_pos a)

theorem log2_le_log2_div_add {m n : ℕ} (hm : 0 < m) (hn : 0 < n) :
    m.log2 ≤ (m / n).log2 + n.log2 + 1 := by
  have hlt : m < 2 ^ ((m / n).log2 + n.log2 + 2) := by
    calc
      m < (m / n + 1) * n := (Nat.div_lt_iff_lt_mul hn).1 (Nat.lt_succ_self _)
      _ ≤ 2 ^ ((m / n).log2 + 1) * 2 ^ (n.log2 + 1) :=
        Nat.mul_le_mul Nat.lt_log2_self Nat.lt_log2_self.le
      _ = 2 ^ ((m / n).log2 + n.log2 + 2) := by rw [← pow_add]; congr 1; omega
  have := (Nat.log2_lt hm.ne').2 hlt
  omega

theorem Unpacks.toNat_pack_div {s t : Sign} {b c : ℕ} {u v : UnpackedFloat}
    (hu : Unpacks s b u) (hv : Unpacks t c v) (hb : b < infinityPattern)
    (hc : c < infinityPattern) (hpos : 0 < c) :
    (UnpackedFloat.pack .binary64 (UnpackedFloat.div .binary64 u v)).toNat =
      (s / t).toBitVec.toNat * signPattern +
        nearestPattern (patternMagnitude b * unit) (patternMagnitude c) := by
  obtain ⟨rfl, -⟩ | ⟨n, e, hn, rfl, hmag', hcase'⟩ := hv.eq_zero_or_finite hc
  · exact absurd hpos (lt_irrefl 0)
  rcases hu.eq_zero_or_finite hb with ⟨rfl, rfl⟩ | ⟨m, d, hm, rfl, hmag, hcase⟩
  · rw [patternMagnitude_zero, Nat.zero_mul, hmag', nearestPattern_zero (by positivity)]
    exact (Unpacks.zero (s := s / t)).toNat_pack (Nat.zero_le _)
  · rw [UnpackedFloat.div, divCore]
    dsimp only
    set target := min ((d : ℤ) - 1074 - (e - 1074)) (Format.binary64.targetExponent
      (totalExponent m (d - 1074) - totalExponent n (e - 1074))) with htarget
    obtain ⟨a, ha⟩ :=
      Int.exists_add_of_le (min_le_left _ _ : target ≤ (d : ℤ) - 1074 - (e - 1074))
    have hamount : ((d : ℤ) - 1074 - (e - 1074) - target).toNat = a := by omega
    rw [hamount, Nat.shiftLeft_eq]
    have hlog := log2_le_log2_div_add (Nat.mul_pos hm (Nat.two_pow_pos a)) hn
    rw [log2_mul_two_pow hm] at hlog
    have hready : target ≤
        Format.binary64.targetExponent (totalExponent (m * 2 ^ a / n) target) := by
      simp only [Format.targetExponent, totalExponent, Format.mantissaBits,
        Format.minExponent] at htarget ⊢
      omega
    have hexponent : ((d + 1074 : ℕ) : ℤ) = target + 1074 + (e + a : ℕ) := by
      push_cast
      omega
    have hscale (w : ℕ) : nearestPattern (m * 2 ^ a * 2 ^ (d + w)) (n * 2 ^ (e + a)) =
        nearestPattern (m * 2 ^ d * 2 ^ w) (n * 2 ^ e) :=
      nearestPattern_congr (by positivity) (by positivity) (by ring)
    rw [toNat_pack_roundWithAccuracy (s / t) hn hexponent hready, hscale, hmag, hmag', unit_eq]

/-! ### Doubles -/

theorem eq_ofPattern {x : Float} {negative : Bool} {b : ℕ} (hb : b ≤ infinityPattern)
    (hx : x.toBits.toNat = (signOf negative).toBitVec.toNat * signPattern + b) :
    x = ofPattern negative b := by
  rw [eq_iff_toBits_eq, toNat_toBits_ofPattern hb, hx]
  cases negative <;> simp [signOf, Sign.toBitVec]

theorem nearestPattern_le (num den : ℕ) : nearestPattern num den ≤ infinityPattern :=
  min_le_left _ _

theorem signOf_mul (a b : Bool) : signOf a * signOf b = signOf (a != b) := by
  cases a <;> cases b <;> rfl

theorem signOf_div (a b : Bool) : signOf a / signOf b = signOf (a != b) := by
  cases a <;> cases b <;> rfl

variable {x y : Float}

/-- The product of two doubles is the double nearest to the exact product. -/
theorem mul_eq (hx : x.isFinite = true) (hy : y.isFinite = true) :
    x * y = ofPattern (isNegative x != isNegative y)
      (nearestPattern (magnitude x * magnitude y) unit) := by
  refine eq_ofPattern (nearestPattern_le _ _) ?_
  rw [← signOf_mul]
  exact (unpacks x).toNat_pack_mul (unpacks y) (isFinite_iff.1 hx) (isFinite_iff.1 hy)

/-- The quotient of two doubles is the double nearest to the exact quotient. -/
theorem div_eq (hx : x.isFinite = true) (hy : y.isFinite = true) (hpos : 0 < pattern y) :
    x / y = ofQuotient (isNegative x != isNegative y) (magnitude x) (magnitude y) := by
  refine eq_ofPattern (nearestPattern_le _ _) ?_
  rw [← signOf_div]
  exact (unpacks x).toNat_pack_div (unpacks y) (isFinite_iff.1 hx) (isFinite_iff.1 hy) hpos

/-- A finite double leaves nothing when it is taken from itself. -/
theorem sub_self (hx : x.isFinite = true) : x - x = 0 := by
  have hzero : UnpackedFloat.sub .binary64 x.toModel.unpack x.toModel.unpack =
      .zero .positive := by
    rcases (unpacks x).eq_zero_or_finite (isFinite_iff.1 hx) with
      ⟨-, heq⟩ | ⟨m, e, hm, heq, -, -⟩
    · rw [heq]
      cases isNegative x <;> rfl
    · rw [heq, UnpackedFloat.sub]
      simp only [Int.sub_self]
      rfl
  have hpack : (x - x).toBits.toNat = (signOf false).toBitVec.toNat * signPattern + 0 := by
    show (UnpackedFloat.pack .binary64
      (UnpackedFloat.sub .binary64 x.toModel.unpack x.toModel.unpack)).toNat = _
    rw [hzero]
    exact (Unpacks.zero (s := .positive)).toNat_pack (Nat.zero_le _)
  rw [eq_ofPattern (Nat.zero_le _) hpack]
  decide +kernel

theorem toNat_pack_round (s : Sign) {m : ℕ} (hm : 0 < m) (d : ℕ) :
    (UnpackedFloat.pack .binary64 (UnpackedFloat.round .binary64 s m (d - 1074))).toNat =
      s.toBitVec.toNat * signPattern + nearestPattern (m * 2 ^ d) 1 := by
  rw [UnpackedFloat.round, decreaseExponent]
  dsimp only
  rw [targetExponent_totalExponent]
  set a := ((d - 1074 : ℤ) - max ((m.log2 : ℤ) + (d - 1074) - 52) (-1074)).toNat with ha
  have hexponent : (d : ℤ) = d - 1074 - a + 1074 + (a : ℕ) := by omega
  have hlog := log2_mul_two_pow hm a
  have hready : (d - 1074 - a : ℤ) ≤ (m * 2 ^ a).log2 + (d - 1074 - a : ℤ) - 52 ∨
      (d - 1074 - a : ℤ) ≤ -1074 := by
    omega
  rw [Nat.shiftLeft_eq, toNat_pack_roundWithAccuracy_exact s hexponent hready,
    nearestPattern_mul_two_pow]

theorem toFloat_eq (v : UInt64) : v.toFloat = ofQuotient false v.toNat 1 := by
  refine eq_ofPattern (nearestPattern_le _ _) ?_
  show (UnpackedFloat.pack .binary64
    (UnpackedFloat.normalize .binary64 v.toNat 0 .positive)).toNat = _
  unfold UnpackedFloat.normalize
  rcases Nat.eq_zero_or_pos v.toNat with hzero | hpos
  · rw [hzero, Nat.zero_mul, nearestPattern_zero Nat.one_pos]
    exact (Unpacks.zero (s := .positive)).toNat_pack (Nat.zero_le _)
  · rw [Int.compare_eq_gt.2 (by omega : (v.toNat : ℤ) > 0)]
    have hround := toNat_pack_round .positive hpos 1074
    rwa [← unit_eq, Nat.cast_ofNat, Int.sub_self] at hround

/-- Whole numbers of 64 bits are far from infinity. -/
theorem nearestPattern_mul_unit_lt {n : ℕ} (hn : n ≤ 2 ^ 64) :
    nearestPattern (n * unit) 1 < infinityPattern := by
  have hmono := nearestPattern_mono Nat.one_pos Nat.one_pos
    (Nat.mul_le_mul_right 1 (Nat.mul_le_mul_right unit hn))
  exact hmono.trans_lt (by decide +kernel)

theorem magnitude_ofPattern {negative : Bool} {b : ℕ} (hb : b ≤ infinityPattern) :
    magnitude (ofPattern negative b) = patternMagnitude b := by
  rw [magnitude, pattern_ofPattern hb]

theorem isFinite_ofPattern {negative : Bool} {b : ℕ} (hb : b < infinityPattern) :
    (ofPattern negative b).isFinite = true := by
  rwa [isFinite_iff, pattern_ofPattern hb.le]

/-- A pattern is nearest to its own magnitude. -/
theorem nearestPattern_patternMagnitude {b den : ℕ} (hden : 0 < den)
    (hb : b ≤ infinityPattern) :
    nearestPattern (patternMagnitude b * den) den = b :=
  nearestPattern_eq hden (Rounds.refl strictMono_patternMagnitude hden b) hb

/-- The double of a whole number is the one nearest to it. -/
theorem ofNat_eq (n : ℕ) : Float.ofNat n = ofQuotient false n 1 := by
  show Float.ofScientific n false 0 = _
  unfold Float.ofScientific
  split
  · rename_i hsmall
    have hn : n.toUInt64.toNat = n := Nat.mod_eq_of_lt (hsmall.1.trans (by decide))
    simp only [Bool.false_eq_true, if_false]
    rw [toFloat_eq, hn, ofQuotient]
    generalize hb : nearestPattern (n * unit) 1 = b
    have hfinite : b < infinityPattern :=
      hb ▸ nearestPattern_mul_unit_lt (hsmall.1.le.trans (by decide))
    have hone : Float.exactlyRepresentablePowersOfTen[0] = ofPattern false (pattern 1) := by
      decide +kernel
    have hmagnitude : patternMagnitude (pattern 1) = unit := by decide +kernel
    have hfinite' : pattern 1 < infinityPattern := by decide +kernel
    rw [hone, mul_eq (isFinite_ofPattern hfinite) (isFinite_ofPattern hfinite'),
      magnitude_ofPattern hfinite.le, magnitude_ofPattern hfinite'.le, hmagnitude,
      nearestPattern_patternMagnitude unit_pos hfinite.le, isNegative_ofPattern hfinite.le,
      isNegative_ofPattern hfinite'.le]
    rfl
  · rename_i hlarge
    refine eq_ofPattern (nearestPattern_le _ _) ?_
    show (UnpackedFloat.pack .binary64 (UnpackedFloat.ofScientific .binary64 n 0)).toNat = _
    have hn : n ≠ 0 := by omega
    have hpow : (0 : ℤ) < 2 ^ Format.binary64.exponentBits := by decide
    rw [UnpackedFloat.ofScientific, dif_neg hn, if_neg (by omega), if_neg (by omega),
      if_pos (by decide)]
    have hbits : Format.binary64.mantissaBits = 53 := rfl
    have hlog := log2_mul_two_pow (Nat.pos_of_ne_zero hn) 53
    have hexponent : ((1074 : ℕ) : ℤ) = -53 + 1074 + (53 : ℕ) := by norm_num
    have hready : (-53 : ℤ) ≤ (n * 2 ^ 53).log2 + (-53 : ℤ) - 52 ∨ (-53 : ℤ) ≤ -1074 := by
      omega
    have hround := toNat_pack_roundWithAccuracy_exact (signOf false) hexponent hready
    rw [nearestPattern_mul_two_pow, ← unit_eq] at hround
    rw [UnpackedFloat.mul, hbits, Nat.shiftLeft_eq, Int.toNat_zero, pow_zero, mul_one,
      add_zero]
    exact hround

/-! ### Fractions of whole numbers -/

theorem pattern_ofNat (n : ℕ) : pattern (Float.ofNat n) = nearestPattern (n * unit) 1 := by
  rw [ofNat_eq, ofQuotient, pattern_ofPattern (nearestPattern_le _ _)]

theorem isNegative_ofNat (n : ℕ) : isNegative (Float.ofNat n) = false := by
  rw [ofNat_eq, ofQuotient, isNegative_ofPattern (nearestPattern_le _ _)]

theorem isFinite_ofNat {n : ℕ} (hn : n ≤ 2 ^ 64) : (Float.ofNat n).isFinite = true := by
  rw [isFinite_iff, pattern_ofNat]
  exact nearestPattern_mul_unit_lt hn

theorem magnitude_ofNat_mono {m n : ℕ} (h : m ≤ n) :
    magnitude (Float.ofNat m) ≤ magnitude (Float.ofNat n) := by
  rw [magnitude, magnitude, pattern_ofNat, pattern_ofNat]
  refine strictMono_patternMagnitude.monotone (nearestPattern_mono Nat.one_pos Nat.one_pos ?_)
  exact Nat.mul_le_mul_right 1 (Nat.mul_le_mul_right unit h)

theorem pattern_ofNat_pos {n : ℕ} (hn : 0 < n) : 0 < pattern (Float.ofNat n) := by
  have hleast : nearestPattern (patternMagnitude 1 * 1) 1 = 1 :=
    nearestPattern_patternMagnitude Nat.one_pos (by decide)
  have hmono : nearestPattern (patternMagnitude 1 * 1) 1 ≤ nearestPattern (n * unit) 1 :=
    nearestPattern_mono Nat.one_pos Nat.one_pos
      (Nat.mul_le_mul_right 1 (Nat.mul_pos hn unit_pos))
  rw [pattern_ofNat]
  exact hleast.symm.trans_le hmono

theorem div_ofNat_eq {m n : ℕ} (hm : m ≤ 2 ^ 64) (hn : n ≤ 2 ^ 64) (hpos : 0 < n) :
    Float.ofNat m / Float.ofNat n = ofPattern false
      (nearestPattern (magnitude (Float.ofNat m) * unit) (magnitude (Float.ofNat n))) := by
  rw [div_eq (isFinite_ofNat hm) (isFinite_ofNat hn) (pattern_ofNat_pos hpos),
    isNegative_ofNat, isNegative_ofNat]
  rfl

/-- Doubles without a sign are ordered as their patterns are. -/
theorem ofPattern_le_ofPattern {b c : ℕ} (hc : c ≤ infinityPattern) (h : b ≤ c) :
    ofPattern false b ≤ ofPattern false c := by
  have hnumber {d : ℕ} (hd : d ≤ infinityPattern) : (ofPattern false d).isNaN = false := by
    rw [Bool.eq_false_iff, ne_eq, isNaN_iff, pattern_ofPattern hd]
    exact hd.not_gt
  have hsigned {d : ℕ} (hd : d ≤ infinityPattern) : signedPattern (ofPattern false d) = d := by
    rw [signedPattern, isNegative_ofPattern hd, pattern_ofPattern hd]
    rfl
  rw [le_iff (hnumber (h.trans hc)) (hnumber hc), hsigned (h.trans hc), hsigned hc]
  exact_mod_cast h

end VideoFingerprint.Binary64
