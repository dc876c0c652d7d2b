import VideoFingerprint.Proofs.Number.Addition

/-!
Powers of two as bounds on doubles. Rounding does not go past a double, so a sum, a difference
or a product is at most the power of two that the exact one is at most, and as long as that is
a double the result is finite.
-/

namespace VideoFingerprint.Binary64

/-- A double that is at most `2 ^ e` from zero. -/
def AtMost (e : ℕ) (x : Float) : Prop := pattern x ≤ (1023 + e) * smallestNormal

/-- The pattern of `2 ^ e`. -/
theorem patternMagnitude_two_pow (e : ℕ) :
    patternMagnitude ((1023 + e) * smallestNormal) = 2 ^ (1074 + e) := by
  have hbinade := patternMagnitude_binade (s := 1022 + e) (r := smallestNormal)
    (Nat.le_mul_of_pos_left _ Nat.two_pos) (.inr le_rfl)
  have hpattern : (1022 + e) * smallestNormal + smallestNormal =
      (1023 + e) * smallestNormal := by
    rw [← Nat.succ_mul, Nat.succ_eq_add_one, Nat.add_right_comm]
  have hpow : smallestNormal * 2 ^ (1022 + e) = 2 ^ (1074 + e) := by
    rw [smallestNormal_eq, ← pow_add, ← Nat.add_assoc]
  rwa [hpattern, hpow] at hbinade

variable {x y : Float} {e f : ℕ}

theorem atMost_iff : AtMost e x ↔ magnitude x ≤ 2 ^ (1074 + e) := by
  rw [AtMost, magnitude, ← patternMagnitude_two_pow, strictMono_patternMagnitude.le_iff_le]

theorem two_pow_lt_infinity (he : e ≤ 1023) :
    (1023 + e) * smallestNormal < infinityPattern := by
  have hle := Nat.mul_le_mul_right smallestNormal (Nat.add_le_add_left he 1023)
  exact hle.trans_lt (by decide)

theorem AtMost.mono (h : AtMost e x) (hef : e ≤ f) : AtMost f x :=
  h.trans (Nat.mul_le_mul_right _ (Nat.add_le_add_left hef _))

theorem AtMost.isFinite (h : AtMost e x) (he : e ≤ 1023) : x.isFinite = true :=
  isFinite_iff.2 (h.trans_lt (two_pow_lt_infinity he))

/-- Rounding does not go past a power of two, which is a double. -/
theorem nearestPattern_le_two_pow {num den : ℕ} (hden : 0 < den) (he : e ≤ 1023)
    (h : num ≤ 2 ^ (1074 + e) * den) :
    nearestPattern num den ≤ (1023 + e) * smallestNormal := by
  have hself := nearestPattern_patternMagnitude hden (two_pow_lt_infinity he).le
  rw [patternMagnitude_two_pow] at hself
  rw [← hself]
  exact nearestPattern_mono hden hden (Nat.mul_le_mul_right _ h)

theorem natAbs_nearestSigned {den : ℕ} (hden : 0 < den) (n : ℤ) :
    (nearestSigned den n).natAbs = nearestPattern n.natAbs den := by
  obtain ⟨negative, hsigned⟩ := exists_signed n
  generalize n.natAbs = m at *
  rw [hsigned, nearestSigned_signed hden, natAbs_signed]

theorem natAbs_signedMagnitude (x : Float) : (signedMagnitude x).natAbs = magnitude x := by
  rw [signedMagnitude_eq, natAbs_signed]

/-- What is nearest to a number with a sign is at most a power of two if the number is. -/
theorem atMost_of_nearestSigned {n : ℤ} (hx : signedPattern x = nearestSigned 1 n)
    (he : e ≤ 1023) (hn : n.natAbs ≤ 2 ^ (1074 + e)) : AtMost e x := by
  rw [AtMost, ← natAbs_signedPattern, hx, natAbs_nearestSigned Nat.one_pos]
  exact nearestPattern_le_two_pow Nat.one_pos he (hn.trans_eq (Nat.mul_one _).symm)

theorem AtMost.sizes (hx : AtMost e x) (hy : AtMost e y) :
    (signedMagnitude x).natAbs + (signedMagnitude y).natAbs ≤ 2 ^ (1074 + (e + 1)) := by
  rw [natAbs_signedMagnitude, natAbs_signedMagnitude, ← Nat.add_assoc, pow_succ, Nat.mul_two]
  exact Nat.add_le_add (atMost_iff.1 hx) (atMost_iff.1 hy)

theorem AtMost.add (hx : AtMost e x) (hy : AtMost e y) (he : e < 1023) :
    AtMost (e + 1) (x + y) :=
  atMost_of_nearestSigned (signedPattern_add (hx.isFinite he.le) (hy.isFinite he.le)) he
    ((Int.natAbs_add_le _ _).trans (hx.sizes hy))

theorem AtMost.sub (hx : AtMost e x) (hy : AtMost e y) (he : e < 1023) :
    AtMost (e + 1) (x - y) :=
  atMost_of_nearestSigned (signedPattern_sub (hx.isFinite he.le) (hy.isFinite he.le)) he
    ((Int.natAbs_sub_le _ _).trans (hx.sizes hy))

theorem AtMost.neg (hx : AtMost e x) (he : e ≤ 1023) : AtMost e (-x) := by
  rw [AtMost, ← natAbs_signedPattern, signedPattern_neg (hx.isFinite he), Int.natAbs_neg,
    natAbs_signedPattern]
  exact hx

theorem AtMost.mul (hx : AtMost e x) (hy : AtMost f y) (h : e + f ≤ 1023) :
    AtMost (e + f) (x * y) := by
  rw [AtMost, mul_eq (hx.isFinite (by omega)) (hy.isFinite (by omega)),
    pattern_ofPattern (nearestPattern_le _ _)]
  refine nearestPattern_le_two_pow unit_pos h ?_
  calc magnitude x * magnitude y ≤ 2 ^ (1074 + e) * 2 ^ (1074 + f) :=
        Nat.mul_le_mul (atMost_iff.1 hx) (atMost_iff.1 hy)
    _ = 2 ^ (1074 + (e + f)) * unit := by
        rw [unit_eq, ← pow_add, ← pow_add]
        congr 1
        omega

/-- A fraction of whole numbers that is not above one. -/
theorem atMost_fraction {m n : ℕ} (hmn : m ≤ n) (hn : n ≤ 2 ^ 64) (hpos : 0 < n) :
    AtMost 0 (Float.ofNat m / Float.ofNat n) := by
  have hmagnitude : 0 < magnitude (Float.ofNat n) :=
    strictMono_patternMagnitude (pattern_ofNat_pos hpos)
  rw [AtMost, div_ofNat_eq (hmn.trans hn) hn hpos, pattern_ofPattern (nearestPattern_le _ _)]
  refine nearestPattern_le_two_pow hmagnitude (Nat.zero_le _) ?_
  rw [Nat.add_zero, ← unit_eq, Nat.mul_comm]
  exact Nat.mul_le_mul_left _ (magnitude_ofNat_mono hmn)

/-- A whole number up to a power of two. -/
theorem atMost_ofNat {n : ℕ} (h : n ≤ 2 ^ e) (he : e ≤ 1023) : AtMost e (Float.ofNat n) := by
  rw [AtMost, pattern_ofNat]
  refine nearestPattern_le_two_pow Nat.one_pos he ?_
  rw [Nat.mul_one, Nat.add_comm, pow_add, ← unit_eq]
  exact Nat.mul_le_mul_right _ h

end VideoFingerprint.Binary64
