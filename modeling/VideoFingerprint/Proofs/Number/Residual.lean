import VideoFingerprint.Proofs.Number.Bits
import VideoFingerprint.Proofs.Number.Rounding

/-!
Rounding with two residual bits. While an operation rounds its result to the format, it keeps a
significand and two more bits, which are all that rounding to even needs to know of the
remainder. The result is the pattern nearest to the exact quotient, also among the subnormal
numbers and past the largest finite double.
-/

namespace VideoFingerprint.Binary64

open Float.Model Float.Model.UnpackedFloat

/-! ### Significands with two residual bits -/

/-- A significand stands for `num / den`: it is the whole part, the first bit says that the
remainder reaches a half, and the second one that it is neither nothing nor a half. -/
structure StandsFor (m : ExtendedMantissa) (num den : ℕ) : Prop where
  mantissa : m.mantissa = num / den
  roundBit : m.roundBit = true ↔ den ≤ 2 * (num % den)
  stickyBit : m.stickyBit = true ↔ num % den ≠ 0 ∧ 2 * (num % den) ≠ den

section Residual

variable {m : ExtendedMantissa} {num den : ℕ}

theorem standsFor_ofMantissaAndAccuracy (hden : 0 < den) :
    StandsFor
      (.ofMantissaAndAccuracy (num / den) (accuracyOfFraction (num % den) den)) num den := by
  unfold accuracyOfFraction
  split
  · rename_i hzero
    constructor <;> simp [ExtendedMantissa.ofMantissaAndAccuracy, hzero, hden.ne']
  · rename_i hpos
    rcases lt_trichotomy (2 * (num % den)) den with hlt | heq | hgt
    · rw [Nat.compare_eq_lt.2 hlt]
      constructor <;> simp [ExtendedMantissa.ofMantissaAndAccuracy, hpos, hlt, hlt.ne]
    · rw [Nat.compare_eq_eq.2 heq]
      constructor <;> simp [ExtendedMantissa.ofMantissaAndAccuracy, heq]
    · rw [Nat.compare_eq_gt.2 hgt]
      constructor <;> simp [ExtendedMantissa.ofMantissaAndAccuracy, hpos, hgt.le, hgt.ne']

theorem mod_mul_two (num den : ℕ) : num % (den * 2) = num / den % 2 * den + num % den := by
  rw [Nat.mod_mul, Nat.mul_comm den, Nat.add_comm]

/-- Dropping the last bit halves what a significand stands for. -/
theorem StandsFor.shiftRightOne (h : StandsFor m num den) (hden : 0 < den) :
    StandsFor m.shiftRightOne num (den * 2) where
  mantissa := by rw [ExtendedMantissa.shiftRightOne, h.mantissa, Nat.div_div_eq_div_mul]
  roundBit := by
    have hmod := Nat.mod_lt num hden
    rw [mod_mul_two]
    rcases Nat.mod_two_eq_zero_or_one (num / den) with hbit | hbit <;>
      simp [ExtendedMantissa.shiftRightOne, h.mantissa, hbit] <;> omega
  stickyBit := by
    have hmod := Nat.mod_lt num hden
    simp only [ExtendedMantissa.shiftRightOne, Bool.or_eq_true, h.roundBit, h.stickyBit]
    rw [mod_mul_two]
    rcases Nat.mod_two_eq_zero_or_one (num / den) with hbit | hbit <;> rw [hbit] <;> omega

theorem StandsFor.shiftRight (h : StandsFor m num den) (hden : 0 < den) (n : ℕ) :
    StandsFor (m >>> n) num (den * 2 ^ n) := by
  induction n with
  | zero =>
      show StandsFor m num _
      simpa using h
  | succ n ih =>
      have hnext := ih.shiftRightOne (Nat.mul_pos hden (Nat.two_pow_pos n))
      rwa [Nat.mul_assoc, ← Nat.pow_succ] at hnext

/-- The two residual bits suffice to round to the nearest whole number, a tie
to the even one. -/
theorem StandsFor.roundedMantissa_eq (h : StandsFor m num den) :
    m.roundedMantissa = divHalfEven num den := by
  obtain ⟨mantissa, round, sticky⟩ := m
  obtain ⟨hmantissa, hround, hsticky⟩ := h
  dsimp only at hmantissa hround hsticky
  subst hmantissa
  unfold divHalfEven
  cases round <;> cases sticky
  all_goals
    simp only [Bool.false_eq_true, false_iff, true_iff, not_le, not_and, not_not]
      at hround hsticky
    simp only [ExtendedMantissa.roundedMantissa, ExtendedMantissa.accuracy,
      Accuracy.roundToNearestEven]
  · rw [if_pos hround]
  · rw [if_pos hround]
  · rw [if_neg (by omega), if_neg (by omega)]
  · rw [if_neg (by omega), if_pos (by omega)]

end Residual

/-! ### Rounding to the format -/

theorem targetExponent_totalExponent (m : ℕ) (e : ℤ) :
    Format.binary64.targetExponent (totalExponent m e) = max (m.log2 + e - 52) (-1074) := by
  simp only [Format.targetExponent, totalExponent, Format.mantissaBits, Format.minExponent]
  omega

/-- A significand that rounding has carried over to the next binade is moved there;
nothing is lost. -/
theorem exists_shiftToTargetExponent_exact {r k : ℕ} (hr : r ≤ 2 * smallestNormal)
    (hk : k = 0 ∨ smallestNormal ≤ r) :
    ∃ r' k' : ℕ, (shiftToTargetExponent .binary64 r (k - 1074) .exact).1.mantissa = r' ∧
      (shiftToTargetExponent .binary64 r (k - 1074) .exact).2 = k' - 1074 ∧
      k' * smallestNormal + r' = k * smallestNormal + r ∧ r' < 2 * smallestNormal ∧
      (k' = 0 ∨ smallestNormal ≤ r') := by
  have hnormal : smallestNormal = 2 ^ 52 := smallestNormal_eq
  unfold shiftToTargetExponent shiftToExponent
  dsimp only
  rw [targetExponent_totalExponent]
  rcases hr.lt_or_eq with hlt | rfl
  · have hlog : r.log2 ≤ 52 := by
      rcases Nat.eq_zero_or_pos r with rfl | hpos
      · simp
      · have := (Nat.log2_lt hpos.ne').2 (by omega : r < 2 ^ 53)
        omega
    have hshift : (max ((r.log2 : ℤ) + (k - 1074) - 52) (-1074) - (k - 1074)).toNat = 0 := by
      omega
    rw [hshift]
    exact ⟨r, k, rfl, by simp, rfl, hlt, hk⟩
  · have hlog : (2 * smallestNormal).log2 = 53 := by rw [hnormal]; rfl
    have hshift :
        (max (((2 * smallestNormal).log2 : ℤ) + (k - 1074) - 52) (-1074) - (k - 1074)).toNat =
          1 := by
      omega
    rw [hshift]
    refine ⟨smallestNormal, k + 1, ?_, by push_cast; ring, by ring, by omega, .inr le_rfl⟩
    show 2 * smallestNormal / 2 = smallestNormal
    omega

/-- A pattern has one exponent and one significand. -/
theorem exponent_eq_and_significand_eq {k r : ℕ} (hr : r < 2 * smallestNormal)
    (hk : k = 0 ∨ smallestNormal ≤ r) :
    (k * smallestNormal + r) / smallestNormal - 1 = k ∧
    significand (k * smallestNormal + r) = r := by
  have hsplit := pattern_eq_exponent_mul_add (k * smallestNormal + r)
  generalize (k * smallestNormal + r) / smallestNormal - 1 = d at *
  generalize significand (k * smallestNormal + r) = m at *
  simp only [smallestNormal] at *
  omega

/-- Packing a significand in its binade; what lies past the largest finite double
becomes infinity. -/
theorem toNat_pack_finite (s : Sign) {r k : ℕ} (hpos : 0 < r) (hr : r < 2 * smallestNormal)
    (hk : k = 0 ∨ smallestNormal ≤ r) :
    (UnpackedFloat.pack .binary64 (.finite s r (k - 1074) hpos)).toNat =
      s.toBitVec.toNat * signPattern + min infinityPattern (k * smallestNormal + r) := by
  have hinf : infinityPattern = 2047 * smallestNormal := rfl
  rcases Nat.lt_or_ge (k * smallestNormal + r) infinityPattern with hlt | hge
  · rw [min_eq_right hlt.le]
    obtain ⟨hexponent, hsignificand⟩ := exponent_eq_and_significand_eq hr hk
    refine Unpacks.toNat_pack (.finite (by omega) hlt hsignificand.symm ?_ hpos) hlt.le
    rw [hexponent]
  · rw [min_eq_left hge]
    have hbig : 2046 ≤ k := by
      by_contra hsmall
      have : k * smallestNormal ≤ 2045 * smallestNormal := Nat.mul_le_mul_right _ (by omega)
      omega
    have hbiased : ((k : ℤ) - 1074 + Format.binary64.exponentBias +
        Format.binary64.mantissaBitsWithoutImplicit).toNat = k + 1 := by
      have hbias : ((Format.binary64.exponentBias : ℕ) : ℤ) = 1023 := rfl
      rw [hbias]
      push_cast
      omega
    rw [UnpackedFloat.pack]
    dsimp only
    rw [hbiased, if_pos (by show 2 ^ 11 ≤ _; omega)]
    exact (Unpacks.infinity (s := s)).toNat_pack le_rfl

section Binade

/-! A quotient that is rounded in binade `b`, after `shift` bits have been dropped. -/

variable {num den shift b k j : ℕ}

theorem le_of_log2_le (hden : 0 < den) (hlog : (num / den).log2 ≤ shift + 52) :
    num ≤ 2 * smallestNormal * (den * 2 ^ shift) := by
  have hlt : num / den < 2 ^ (53 + shift) :=
    Nat.lt_log2_self.trans_le (Nat.pow_le_pow_right (by omega) (by omega))
  calc
    num ≤ 2 ^ (53 + shift) * den := ((Nat.div_lt_iff_lt_mul hden).1 hlt).le
    _ = 2 * smallestNormal * (den * 2 ^ shift) := by rw [smallestNormal_eq, pow_add]; ring

theorem le_of_log2_eq (hden : 0 < den) (hlog : (num / den).log2 = shift + 52) :
    smallestNormal * (den * 2 ^ shift) ≤ num := by
  have hle : 2 ^ (52 + shift) ≤ num / den := by
    rw [Nat.add_comm, ← hlog]
    refine Nat.log2_self_le fun hzero => ?_
    rw [hzero, Nat.log2_zero] at hlog
    omega
  calc
    smallestNormal * (den * 2 ^ shift) = 2 ^ (52 + shift) * den := by
      rw [smallestNormal_eq, pow_add]
      ring
    _ ≤ num := (Nat.le_div_iff_mul_le hden).1 hle

/-- The significand has at most 53 bits, and all of them outside the first binade. -/
theorem divHalfEven_bounds (hden : 0 < den) (hlog : (num / den).log2 ≤ shift + 52)
    (hb : b = 0 ∨ (num / den).log2 = shift + 52) :
    divHalfEven num (den * 2 ^ shift) ≤ 2 * smallestNormal ∧
      (b = 0 ∨ smallestNormal ≤ divHalfEven num (den * 2 ^ shift)) := by
  have hunit : 0 < den * 2 ^ shift := Nat.mul_pos hden (Nat.two_pow_pos shift)
  have hround := rounds_divHalfEven num hunit
  constructor
  · exact hround.index_le strictMono_id (Rounds.refl strictMono_id hunit _) hunit hunit
      (Nat.mul_le_mul_right _ (le_of_log2_le hden hlog))
  · exact le_significand hround hunit (hb.imp_right (le_of_log2_eq hden))

theorem nearestPattern_eq_of_shift (hden : 0 < den) (hlog : (num / den).log2 ≤ shift + 52)
    (hb : b = 0 ∨ (num / den).log2 = shift + 52) (hexponent : shift + k = b + j) :
    nearestPattern (num * 2 ^ k) (den * 2 ^ j) =
      min infinityPattern (b * smallestNormal + divHalfEven num (den * 2 ^ shift)) := by
  have hunit : 0 < den * 2 ^ shift := Nat.mul_pos hden (Nat.two_pow_pos shift)
  have hden' : 0 < den * 2 ^ j := Nat.mul_pos hden (Nat.two_pow_pos j)
  have hscale : den * 2 ^ j * 2 ^ b = den * 2 ^ shift * 2 ^ k := by
    rw [mul_assoc, mul_assoc, ← pow_add, ← pow_add, hexponent, Nat.add_comm j]
  have hround := (rounds_divHalfEven num hunit).mul_right (Nat.two_pow_pos k)
  rw [← hscale] at hround
  have hbound : b = 0 ∨ smallestNormal * (den * 2 ^ j * 2 ^ b) ≤ num * 2 ^ k := by
    refine hb.imp_right fun heq => ?_
    rw [hscale, ← mul_assoc]
    exact Nat.mul_le_mul_right _ (le_of_log2_eq hden heq)
  have hpattern := rounds_binade hround hden' (divHalfEven_bounds hden hlog hb).1 hbound
  rw [nearestPattern_eq_min,
    (rounds_unboundedPattern hden').index_eq strictMono_patternMagnitude hpattern
    hden' hden' rfl]

end Binade

/-- Rounding a quotient of naturals with an exponent gives the nearest pattern. The exponent is
the difference of `k` and `j`, counted from the smallest subnormal on; it must not be above the
one that the format asks for. -/
theorem toNat_pack_roundWithAccuracy (s : Sign) {num den k j : ℕ} {e : ℤ} (hden : 0 < den)
    (he : (k : ℤ) = e + 1074 + j)
    (hready : e ≤ Format.binary64.targetExponent (totalExponent (num / den) e)) :
    (UnpackedFloat.pack .binary64 (roundWithAccuracy .binary64 s (num / den) e
      (accuracyOfFraction (num % den) den))).toNat =
        s.toBitVec.toNat * signPattern + nearestPattern (num * 2 ^ k) (den * 2 ^ j) := by
  obtain ⟨shift, hshift⟩ := Int.exists_add_of_le hready
  obtain ⟨b, hb⟩ := Int.exists_add_of_le
    (le_max_right _ _ : (-1074 : ℤ) ≤ max ((num / den).log2 + e - 52) (-1074))
  rw [targetExponent_totalExponent] at hshift
  have hfirst :
      shiftToTargetExponent .binary64 (num / den) e (accuracyOfFraction (num % den) den) =
        (ExtendedMantissa.ofMantissaAndAccuracy (num / den)
          (accuracyOfFraction (num % den) den) >>> shift, (b : ℤ) - 1074) := by
    have hamount : (max ((num / den).log2 + e - 52) (-1074) - e).toNat = shift := by omega
    simp only [shiftToTargetExponent, shiftToExponent, targetExponent_totalExponent, hamount,
      Prod.mk.injEq, true_and]
    omega
  have hstands : StandsFor _ num (den * 2 ^ shift) :=
    (standsFor_ofMantissaAndAccuracy hden).shiftRight hden shift
  have hlog : (num / den).log2 ≤ shift + 52 := by omega
  have hbinade : b = 0 ∨ (num / den).log2 = shift + 52 := by omega
  obtain ⟨hr, hk⟩ := divHalfEven_bounds (b := b) hden hlog hbinade
  rw [nearestPattern_eq_of_shift hden hlog hbinade (by omega : shift + k = b + j)]
  unfold roundWithAccuracy
  rw [hfirst]
  dsimp only
  rw [hstands.roundedMantissa_eq]
  obtain ⟨r', k', hmantissa, hexponent, hsum, hr', hk'⟩ :=
    exists_shiftToTargetExponent_exact hr hk
  rw [← hsum]
  split
  · rename_i hzero
    obtain rfl : r' = 0 := hmantissa.symm.trans hzero
    obtain rfl : k' = 0 := hk'.resolve_right (not_le.2 smallestNormal_pos)
    rw [(Unpacks.zero (s := s)).toNat_pack (Nat.zero_le _)]
    simp
  · rename_i hnonzero
    rw [hmantissa] at hnonzero
    simp only [hmantissa, hexponent]
    exact toNat_pack_finite s (Nat.pos_of_ne_zero hnonzero) hr' hk'

end VideoFingerprint.Binary64
