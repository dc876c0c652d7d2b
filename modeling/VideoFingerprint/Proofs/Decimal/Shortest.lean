import VideoFingerprint.Decimal.Literal
import VideoFingerprint.Decimal.Shortest
import VideoFingerprint.Proofs.Number.Rounding

/-!
Shortest decimals read back. A decimal reads as a double when its value is rounded to the
double; the shortcuts of the reader for very large and very small decimals agree with rounding,
and the grids that are tried for a shortest decimal end with one whose steps are smaller than
the gaps between doubles.
-/

namespace VideoFingerprint.Decimal

open Binary64

/-! ### The value of a decimal -/

def num (d : Decimal) : ℕ := d.digits * Nat.pow 10 d.exponent.toNat * unit

def den (d : Decimal) : ℕ := Nat.pow 10 (-d.exponent).toNat

theorem den_pos (d : Decimal) : 0 < d.den := Nat.pow_pos (by omega)

/-- The decimal is rounded to the double with pattern `b`. -/
def ReadsAs (d : Decimal) (b : ℕ) : Prop := Rounds patternMagnitude d.num d.den b

/-- Powers of different bases compare as their logarithms do. -/
theorem pow_le_pow_of_ratio {a b p q x y : ℕ} (hp : p ≠ 0) (hb : 0 < b) (h : a ^ p ≤ b ^ q)
    (hxy : q * x ≤ p * y) : a ^ x ≤ b ^ y := by
  refine le_of_pow_le_pow_left₀ hp (Nat.zero_le _) ?_
  calc (a ^ x) ^ p = (a ^ p) ^ x := by rw [← pow_mul, ← pow_mul, mul_comm]
    _ ≤ (b ^ q) ^ x := Nat.pow_le_pow_left h x
    _ = b ^ (q * x) := (pow_mul b q x).symm
    _ ≤ b ^ (p * y) := Nat.pow_le_pow_right hb hxy
    _ = (b ^ y) ^ p := by rw [← pow_mul, mul_comm]

theorem patternMagnitude_infinityPattern :
    patternMagnitude infinityPattern = 2 ^ 1024 * unit := by
  decide +kernel

theorem nearestPattern_eq_infinity {d : Decimal} (hdigits : d.digits ≠ 0)
    (hexponent : 400 < d.exponent) :
    Binary64.nearestPattern d.num d.den = infinityPattern := by
  have hself : Binary64.nearestPattern (patternMagnitude infinityPattern * 1) 1 =
      infinityPattern :=
    nearestPattern_eq Nat.one_pos (.refl strictMono_patternMagnitude Nat.one_pos _) le_rfl
  refine le_antisymm (min_le_left _ _) ?_
  rw [← hself]
  refine nearestPattern_mono Nat.one_pos d.den_pos ?_
  have hden : d.den = 1 := by rw [den, show (-d.exponent).toNat = 0 by omega]
  have hpow : 2 ^ 1024 ≤ 10 ^ d.exponent.toNat :=
    pow_le_pow_of_ratio (p := 3) (q := 1) (by omega) (by omega) (by decide) (by omega)
  rw [hden, mul_one, mul_one, mul_one, num, patternMagnitude_infinityPattern]
  exact Nat.mul_le_mul_right unit
    (hpow.trans (Nat.le_mul_of_pos_left _ (Nat.pos_of_ne_zero hdigits)))

theorem nearestPattern_eq_zero {d : Decimal}
    (h : 302 * ((Nat.log2 d.digits + 1 : ℕ) : ℤ) + 1000 * d.exponent < -400000) :
    Binary64.nearestPattern d.num d.den = 0 := by
  refine nearestPattern_eq d.den_pos ⟨by simp, ?_, fun _ => rfl⟩ (Nat.zero_le _)
  have hhalf : (patternMagnitude 0 + patternMagnitude (0 + 1)) * d.den = d.den := by
    rw [show patternMagnitude 0 + patternMagnitude (0 + 1) = 1 by decide, one_mul]
  have hpow : 2 ^ (Nat.log2 d.digits + 1 + 1075) ≤ 10 ^ (-d.exponent).toNat :=
    pow_le_pow_of_ratio (p := 1000) (q := 302) (by omega) (by omega) (by decide +kernel)
      (by omega)
  have hunit : 2 * unit = 2 ^ 1075 := by decide +kernel
  rw [hhalf, num, show d.exponent.toNat = 0 by omega, show Nat.pow 10 0 = 1 from rfl,
    mul_one, den]
  calc 2 * (d.digits * unit) = d.digits * (2 * unit) := by ring
    _ ≤ 2 ^ (Nat.log2 d.digits + 1) * (2 * unit) := Nat.mul_le_mul_right _ Nat.lt_log2_self.le
    _ = 2 ^ (Nat.log2 d.digits + 1 + 1075) := by rw [hunit, ← pow_add]
    _ ≤ _ := hpow

/-- The shortcuts for very large and very small decimals are right. -/
theorem nearestPattern_eq_nearest (d : Decimal) :
    d.nearestPattern = Binary64.nearestPattern d.num d.den := by
  unfold nearestPattern
  dsimp only
  split
  · rename_i hzero
    have hnum : d.num = patternMagnitude 0 * d.den := by simp [num, hzero]
    rw [hnum, nearestPattern_eq d.den_pos (.refl strictMono_patternMagnitude d.den_pos 0)
      (Nat.zero_le _)]
  · rename_i hdigits
    split
    · rename_i hlarge
      exact (nearestPattern_eq_infinity hdigits hlarge).symm
    · split
      · rename_i hsmall
        exact (nearestPattern_eq_zero hsmall).symm
      · rfl

theorem ReadsAs.nearestPattern_eq {d : Decimal} {b : ℕ} (h : d.ReadsAs b)
    (hb : b ≤ infinityPattern) :
    d.nearestPattern = b := by
  rw [nearestPattern_eq_nearest]
  exact Binary64.nearestPattern_eq d.den_pos h hb

/-! ### Grids of powers of ten -/

/-- The test that `onGrid?` makes of a point. -/
theorem inside_iff_readsAs {b c : ℕ} {e : ℤ} :
    (if b % 2 = 0 then
        decide ((patternMagnitude (b - 1) + patternMagnitude b) * Nat.pow 10 (-e).toNat ≤
            2 * c * (Nat.pow 10 e.toNat * unit) ∧
          2 * c * (Nat.pow 10 e.toNat * unit) ≤
            (patternMagnitude b + patternMagnitude (b + 1)) * Nat.pow 10 (-e).toNat)
      else
        decide ((patternMagnitude (b - 1) + patternMagnitude b) * Nat.pow 10 (-e).toNat <
            2 * c * (Nat.pow 10 e.toNat * unit) ∧
          2 * c * (Nat.pow 10 e.toNat * unit) <
            (patternMagnitude b + patternMagnitude (b + 1)) * Nat.pow 10 (-e).toNat)) = true ↔
      (⟨c, e⟩ : Decimal).ReadsAs b := by
  have hnum : 2 * c * (Nat.pow 10 e.toNat * unit) = 2 * (⟨c, e⟩ : Decimal).num := by
    simp only [num]
    ring
  rw [hnum]
  show _ ↔ Rounds patternMagnitude _ (Nat.pow 10 (-e).toNat) b
  constructor
  · intro h
    split at h <;> rw [decide_eq_true_iff] at h <;> constructor <;> omega
  · rintro ⟨hlow, hhigh, heven⟩
    split <;> rw [decide_eq_true_iff] <;> omega

theorem onGrid?_readsAs {tie : Tie} {b : ℕ} {e : ℤ} {d : Decimal}
    (h : onGrid? tie b e = some d) :
    d.ReadsAs b := by
  unfold onGrid? at h
  extract_lets scale step value low high inside below nearest other at h
  have hinside (c : ℕ) : inside c = true ↔ (⟨c, e⟩ : Decimal).ReadsAs b := inside_iff_readsAs
  split at h
  · rename_i hnearest
    cases h
    exact (hinside _).1 hnearest
  · split at h
    · rename_i hother
      cases h
      exact (hinside _).1 hother
    · cases h

theorem divHalfUp_within {num den : ℕ} (hden : 0 < den) :
    2 * num ≤ 2 * (divHalfUp num den * den) + den ∧
    2 * (divHalfUp num den * den) ≤ 2 * num + den := by
  have hdiv := Nat.div_add_mod' (2 * num + den) (2 * den)
  have hmod := Nat.mod_lt (2 * num + den) (by omega : 0 < 2 * den)
  have htwo : divHalfUp num den * (2 * den) = 2 * (divHalfUp num den * den) := by ring
  rw [← divHalfUp, htwo] at hdiv
  omega

theorem divHalfEven_within {num den : ℕ} (hden : 0 < den) :
    2 * num ≤ 2 * (divHalfEven num den * den) + den ∧
    2 * (divHalfEven num den * den) ≤ 2 * num + den := by
  obtain ⟨hlow, hhigh, -⟩ := rounds_divHalfEven num hden
  simp only [id] at hlow hhigh
  have hhigh' : (divHalfEven num den + (divHalfEven num den + 1)) * den =
      2 * (divHalfEven num den * den) + den := by ring
  have hlow' : 2 * (divHalfEven num den * den) ≤
      (divHalfEven num den - 1 + divHalfEven num den) * den + den := by
    rw [← mul_assoc, ← Nat.succ_mul]
    exact Nat.mul_le_mul_right _ (by omega)
  omega

/-- A grid finer than the gap below a double has a point in its rounding interval. -/
theorem onGrid?_isSome {tie : Tie} {b : ℕ} {e : ℤ}
    (hgap : Nat.pow 10 e.toNat * unit < 2 ^ (b / smallestNormal - 1) * Nat.pow 10 (-e).toNat) :
    (onGrid? tie (b + 1) e).isSome = true := by
  unfold onGrid?
  extract_lets scale step value low high inside below nearest other
  have hstep : 0 < step := Nat.mul_pos (Nat.pow_pos (by omega)) unit_pos
  have hnearest : 2 * value ≤ 2 * (nearest * step) + step ∧
      2 * (nearest * step) ≤ 2 * value + step := by
    cases tie with
    | up => exact divHalfUp_within hstep
    | even => exact divHalfEven_within hstep
  have hbelow : low + 2 ^ (b / smallestNormal - 1) * scale = 2 * value := by
    simp only [low, value, Nat.add_sub_cancel, patternMagnitude_succ]
    ring
  have habove : 2 * value + 2 ^ (b / smallestNormal - 1) * scale ≤ high := by
    simp only [high, value, patternMagnitude_succ (b + 1)]
    have := Nat.mul_le_mul_right scale (step_le_step (Nat.le_succ b))
    nlinarith
  have hinside : inside nearest = true := by
    have hgap' : step < 2 ^ (b / smallestNormal - 1) * scale := hgap
    simp only [inside, mul_assoc]
    split <;> rw [decide_eq_true_iff] <;> omega
  rw [if_pos hinside]
  rfl

/-- Seventeen places below the leading one of a double, a power of ten is less
than its last bit. -/
theorem finest_grid {n : ℕ} (hn : n < 2098) {e : ℤ}
    (he : e = ((n : ℤ) - 1074) * 30103 / 100000 + 2 - 19) :
    10 ^ e.toNat * (2 ^ 53 * unit) < 2 ^ n * 10 ^ (-e).toNat := by
  have hunit := unit_pos
  rcases Nat.lt_or_ge n 1074 with hlt | hge
  · obtain ⟨j, hj⟩ : ∃ j, n + (j + 1) = 1074 := ⟨1073 - n, by omega⟩
    obtain ⟨f, hf⟩ : ∃ f, (-e).toNat = f + 17 := ⟨(-e).toNat - 17, by omega⟩
    have hpow : 2 ^ j ≤ 10 ^ f :=
      pow_le_pow_of_ratio (p := 93) (q := 28) (by omega) (by omega) (by decide) (by omega)
    have hsplit : unit = 2 ^ n * (2 ^ j * 2) := by rw [unit_eq, ← hj, pow_add, pow_succ]
    rw [show e.toNat = 0 by omega, hf, pow_zero, one_mul, hsplit, pow_add 10 f 17]
    have hpos : 0 < 2 ^ n * 10 ^ f := by positivity
    calc 2 ^ 53 * (2 ^ n * (2 ^ j * 2)) = 2 ^ 54 * (2 ^ n * 2 ^ j) := by ring
      _ ≤ 2 ^ 54 * (2 ^ n * 10 ^ f) := by gcongr
      _ < 10 ^ 17 * (2 ^ n * 10 ^ f) := Nat.mul_lt_mul_of_pos_right (by norm_num) hpos
      _ = 2 ^ n * (10 ^ f * 10 ^ 17) := by ring
  · obtain ⟨k, hk⟩ : ∃ k, n = 1074 + k := ⟨n - 1074, by omega⟩
    obtain ⟨f, hf⟩ : ∃ f : ℕ, (f : ℤ) = e + 17 := ⟨(e + 17).toNat, by omega⟩
    have hpow : 10 ^ f ≤ 2 ^ (k + 1) :=
      pow_le_pow_of_ratio (p := 59) (q := 196) (by omega) (by omega) (by decide) (by omega)
    have hsplit : 2 ^ n = unit * 2 ^ k := by rw [hk, pow_add, unit_eq]
    have hpow' : 10 ^ e.toNat * 10 ^ 17 = 10 ^ f * 10 ^ (-e).toNat := by
      rw [← pow_add, ← pow_add]
      congr 1
      omega
    have hpos : 0 < unit * 2 ^ k * 10 ^ (-e).toNat := by positivity
    refine Nat.lt_of_mul_lt_mul_right (a := 10 ^ 17) ?_
    calc 10 ^ e.toNat * (2 ^ 53 * unit) * 10 ^ 17 =
            10 ^ f * 10 ^ (-e).toNat * (2 ^ 53 * unit) := by
          rw [← hpow']
          ring
      _ ≤ 2 ^ (k + 1) * 10 ^ (-e).toNat * (2 ^ 53 * unit) := by gcongr
      _ = 2 ^ 54 * (unit * 2 ^ k * 10 ^ (-e).toNat) := by ring
      _ < 10 ^ 17 * (unit * 2 ^ k * 10 ^ (-e).toNat) :=
          Nat.mul_lt_mul_of_pos_right (by norm_num) hpos
      _ = 2 ^ n * 10 ^ (-e).toNat * 10 ^ 17 := by
          rw [hsplit]
          ring

theorem onGrid?_finest {tie : Tie} {b : ℕ} (hfin : b + 1 < infinityPattern) :
    (onGrid? tie (b + 1) (coarsestExponent (b + 1) - 19)).isSome = true := by
  refine onGrid?_isSome ?_
  set n := Nat.log2 (patternMagnitude (b + 1)) with hn
  have hne : patternMagnitude (b + 1) ≠ 0 := by rw [patternMagnitude_succ]; positivity
  have hbound : n < 2098 := by
    rw [hn, Nat.log2_lt hne]
    calc patternMagnitude (b + 1) < patternMagnitude infinityPattern :=
            strictMono_patternMagnitude hfin
      _ = 2 ^ 2098 := by rw [patternMagnitude_infinityPattern, unit_eq, ← pow_add]
  have hgrid := finest_grid hbound (e := coarsestExponent (b + 1) - 19) rfl
  have hstep := patternMagnitude_succ_le_mul_step b
  have hlog : 2 ^ n ≤ patternMagnitude (b + 1) := Nat.log2_self_le hne
  have hdouble : 2 * smallestNormal = 2 ^ 53 := by norm_num [smallestNormal_eq]
  rw [hdouble] at hstep
  set e := coarsestExponent (b + 1) - 19
  show 10 ^ e.toNat * unit < 2 ^ (b / smallestNormal - 1) * 10 ^ (-e).toNat
  refine Nat.lt_of_mul_lt_mul_left (a := 2 ^ 53) ?_
  calc 2 ^ 53 * (10 ^ e.toNat * unit) = 10 ^ e.toNat * (2 ^ 53 * unit) := by ring
    _ < 2 ^ n * 10 ^ (-e).toNat := hgrid
    _ ≤ 2 ^ 53 * 2 ^ (b / smallestNormal - 1) * 10 ^ (-e).toNat :=
        Nat.mul_le_mul_right _ (hlog.trans hstep)
    _ = 2 ^ 53 * (2 ^ (b / smallestNormal - 1) * 10 ^ (-e).toNat) := mul_assoc ..

theorem shortest_readsAs {tie : Tie} {b : ℕ} (hfin : b < infinityPattern) :
    (shortest tie b).ReadsAs b := by
  rcases b with _ | b
  · show Rounds patternMagnitude (0 * Nat.pow 10 0 * unit) (Nat.pow 10 0) 0
    rw [zero_mul, zero_mul]
    exact .refl strictMono_patternMagnitude Nat.one_pos 0
  have hfound : ((List.range 20).findSome? fun (i : ℕ) =>
      onGrid? tie (b + 1) (coarsestExponent (b + 1) - i)).isSome = true := by
    rw [List.findSome?_isSome_iff]
    exact ⟨19, by decide, onGrid?_finest hfin⟩
  obtain ⟨d, hd⟩ := Option.isSome_iff_exists.1 hfound
  obtain ⟨i, -, hi⟩ := List.exists_of_findSome?_eq_some hd
  rw [shortest, if_neg b.succ_ne_zero, hd]
  exact onGrid?_readsAs hi

end VideoFingerprint.Decimal
