import Mathlib.Tactic.Ring
import VideoFingerprint.Number.Binary64
import VideoFingerprint.Proofs.Number.Grid

/-!
Rounding to doubles. The magnitudes of the patterns form a grid whose steps are powers of two
that never shrink, and `nearestPattern` rounds to this grid. Below infinity the nearest pattern
is therefore the only one whose rounding interval holds the quotient.
-/

namespace VideoFingerprint.Binary64

/-! ### Magnitudes as a grid -/

theorem smallestNormal_eq : smallestNormal = 2 ^ 52 := by norm_num [smallestNormal]

theorem smallestNormal_pos : 0 < smallestNormal := by decide

theorem unit_eq : unit = 2 ^ 1074 := by decide +kernel

theorem unit_pos : 0 < unit := by rw [unit_eq]; positivity

/-- A significand of at most 53 bits in a binade; subnormal numbers share the first binade. -/
theorem patternMagnitude_binade {s r : ℕ} (hr : r ≤ 2 * smallestNormal)
    (hs : s = 0 ∨ smallestNormal ≤ r) :
    patternMagnitude (s * smallestNormal + r) = r * 2 ^ s := by
  have hpos := smallestNormal_pos
  unfold patternMagnitude
  generalize smallestNormal = n at *
  rcases Nat.lt_or_ge r n with hlt | hge
  · obtain rfl : s = 0 := by omega
    simp [hlt]
  rw [if_neg (by omega), Nat.shiftLeft_eq]
  rcases Nat.lt_or_ge r (2 * n) with hr' | hr'
  · have hdecomposed : s * n + r = (r - n) + n * (s + 1) := by
      rw [mul_add, mul_comm n s]; omega
    have hmod : (s * n + r) % n = r - n := by
      rw [hdecomposed, Nat.add_mul_mod_self_left, Nat.mod_eq_of_lt (by omega)]
    have hdiv : (s * n + r) / n = s + 1 := by
      rw [hdecomposed, Nat.add_mul_div_left _ _ hpos, Nat.div_eq_of_lt (by omega), zero_add]
    rw [hmod, hdiv, Nat.add_sub_cancel, Nat.add_sub_cancel' hge]
  · obtain rfl : r = 2 * n := by omega
    have hdecomposed : s * n + 2 * n = n * (s + 2) := by ring
    rw [hdecomposed, Nat.mul_mod_right, Nat.mul_div_cancel_left _ hpos,
      show s + 2 - 1 = s + 1 by omega, pow_succ]
    ring

theorem exists_binade (b : ℕ) :
    ∃ s r, b = s * smallestNormal + r ∧ r < 2 * smallestNormal ∧ (s = 0 ∨ smallestNormal ≤ r) ∧
      s = b / smallestNormal - 1 := by
  have hpos := smallestNormal_pos
  generalize smallestNormal = n at *
  have hdiv := Nat.div_add_mod b n
  have hmod := Nat.mod_lt b hpos
  rcases Nat.eq_zero_or_pos (b / n) with hzero | hone
  · rw [hzero] at hdiv ⊢
    exact ⟨0, b, by omega, by omega, .inl rfl, rfl⟩
  · obtain ⟨s, hs⟩ : ∃ s, b / n = s + 1 := ⟨b / n - 1, by omega⟩
    rw [hs, mul_add, mul_comm] at hdiv
    exact ⟨s, n + b % n, by omega, by omega, .inr (by omega), by omega⟩

theorem patternMagnitude_succ (b : ℕ) :
    patternMagnitude (b + 1) = patternMagnitude b + 2 ^ (b / smallestNormal - 1) := by
  obtain ⟨s, r, hb, hr, hs, hexponent⟩ := exists_binade b
  rw [← hexponent, hb, patternMagnitude_binade hr.le hs, add_assoc,
    patternMagnitude_binade (by omega) (by omega), add_mul, one_mul]

theorem strictMono_patternMagnitude : StrictMono patternMagnitude := by
  refine strictMono_nat_of_lt_succ fun b => ?_
  rw [patternMagnitude_succ]
  exact Nat.lt_add_of_pos_right (Nat.two_pow_pos _)

@[simp] theorem patternMagnitude_zero : patternMagnitude 0 = 0 := rfl

theorem step_le_step {b c : ℕ} (h : b ≤ c) :
    2 ^ (b / smallestNormal - 1) ≤ 2 ^ (c / smallestNormal - 1) :=
  Nat.pow_le_pow_right (by omega) (Nat.sub_le_sub_right (Nat.div_le_div_right h) 1)

/-- Doubles have 53 bits: a magnitude is at most `2 ^ 53` steps. -/
theorem patternMagnitude_succ_le_mul_step (b : ℕ) :
    patternMagnitude (b + 1) ≤ 2 * smallestNormal * 2 ^ (b / smallestNormal - 1) := by
  obtain ⟨s, r, hb, hr, hs, hexponent⟩ := exists_binade b
  rw [← hexponent, hb, add_assoc, patternMagnitude_binade (by omega) (by omega)]
  exact Nat.mul_le_mul_right _ (by omega)

/-! ### The nearest whole number -/

theorem rounds_id_iff {num den q : ℕ} :
    Rounds id num den q ↔
      2 * |(q * den : ℤ) - num| ≤ den ∧ (2 * |(q * den : ℤ) - num| = den → q % 2 = 0) := by
  have hsum : (q + (q + 1)) * den = 2 * (q * den) + den := by ring
  have hcast : (q * den : ℤ) = (q * den : ℕ) := by push_cast; rfl
  rw [hcast]
  have hlow : q = 0 ∨ (q - 1 + q) * den + den = 2 * (q * den) := by
    rcases q with _ | q
    · exact .inl rfl
    · right
      rw [Nat.add_sub_cancel]
      ring
  have hzero : q = 0 → q * den = 0 ∧ (q - 1 + q) * den = 0 := by rintro rfl; simp
  constructor
  · rintro ⟨h₁, h₂, h₃⟩
    simp only [id] at h₁ h₂ h₃
    rcases abs_cases (((q * den : ℕ) : ℤ) - num) with ⟨habs, _⟩ | ⟨habs, _⟩ <;>
      rw [habs] <;> omega
  · rintro ⟨h₁, h₂⟩
    rcases abs_cases (((q * den : ℕ) : ℤ) - num) with ⟨habs, _⟩ | ⟨habs, _⟩ <;>
      rw [habs] at h₁ h₂ <;>
      constructor <;> simp only [id] <;> omega

theorem rounds_divHalfEven (num : ℕ) {den : ℕ} (hden : 0 < den) :
    Rounds id num den (divHalfEven num den) := by
  have hnum := Nat.div_add_mod' num den
  have hmod := Nat.mod_lt num hden
  rw [rounds_id_iff, divHalfEven]
  generalize num / den = q at *
  generalize num % den = m at *
  have hsucc : (q + 1) * den = q * den + den := Nat.succ_mul q den
  have hcast (k : ℕ) : (k * den : ℤ) - num = ((k * den : ℕ) : ℤ) - num := by push_cast; rfl
  split
  · rw [hcast, abs_of_nonpos (by omega)]
    omega
  · split
    · rw [hcast, abs_of_nonneg (by omega)]
      omega
    · rcases Nat.mod_two_eq_zero_or_one q with heven | hodd
      · rw [heven, Nat.add_zero, hcast, abs_of_nonpos (by omega)]
        omega
      · rw [hodd, hcast, abs_of_nonneg (by omega)]
        omega

/-! ### The nearest pattern -/

def unboundedPattern (num den : ℕ) : ℕ :=
  let shift := Nat.log2 (num / den) - 52
  shift * smallestNormal + divHalfEven num (den <<< shift)

theorem nearestPattern_eq_min (num den : ℕ) :
    nearestPattern num den = min infinityPattern (unboundedPattern num den) := rfl

theorem le_significand {num den s r : ℕ} (h : Rounds id num den r) (hden : 0 < den)
    (hs : s = 0 ∨ smallestNormal * den ≤ num) : s = 0 ∨ smallestNormal ≤ r :=
  hs.imp_right fun hle =>
    (Rounds.refl strictMono_id hden _).index_le strictMono_id h hden hden
      (Nat.mul_le_mul_right _ hle)

/-- Rounding to the significands of one binade is rounding to all doubles; at its lower end the
neighbour below lies in the binade before, but the quotient does not. -/
theorem rounds_binade {num den s r : ℕ} (h : Rounds id num (den * 2 ^ s) r) (hden : 0 < den)
    (hr : r ≤ 2 * smallestNormal) (hs : s = 0 ∨ smallestNormal * (den * 2 ^ s) ≤ num) :
    Rounds patternMagnitude num den (s * smallestNormal + r) := by
  have hunit : 0 < den * 2 ^ s := by positivity
  have hsr := le_significand h hunit hs
  have hpos := smallestNormal_pos
  obtain ⟨hlow, hhigh, heven⟩ := h
  simp only [id] at hlow hhigh heven
  set b := s * smallestNormal + r with hb
  have hself : patternMagnitude b * den = r * (den * 2 ^ s) := by
    rw [hb, patternMagnitude_binade hr hsr]
    ring
  have hnext : patternMagnitude b * den + den * 2 ^ s ≤ patternMagnitude (b + 1) * den := by
    have hexponent : 2 ^ s ≤ 2 ^ (b / smallestNormal - 1) := by
      refine Nat.pow_le_pow_right (by omega) ?_
      rcases hsr with rfl | hr'
      · exact Nat.zero_le _
      · have : s + 1 ≤ b / smallestNormal := by
          rw [Nat.le_div_iff_mul_le hpos, Nat.succ_mul]
          omega
        omega
    rw [patternMagnitude_succ]
    nlinarith
  have hprev : patternMagnitude (b - 1) * den = (r - 1) * (den * 2 ^ s) ∨
      patternMagnitude (b - 1) * den + patternMagnitude b * den < 2 * num := by
    rcases Nat.eq_zero_or_pos r with rfl | hr₀
    · obtain rfl : s = 0 := by omega
      left
      simp [hb]
    by_cases hedge : s = 0 ∨ smallestNormal ≤ r - 1
    · left
      rw [hb, Nat.add_sub_assoc hr₀, patternMagnitude_binade (by omega) hedge]
      ring
    · right
      have hlt : patternMagnitude (b - 1) * den < patternMagnitude b * den :=
        Nat.mul_lt_mul_of_pos_right (strictMono_patternMagnitude (by omega)) hden
      have hle : r * (den * 2 ^ s) ≤ num := by
        rw [show r = smallestNormal by omega]
        exact hs.resolve_left (by omega)
      omega
  have hparity : b % 2 = r % 2 := by
    rw [hb, smallestNormal_eq]
    omega
  have hlowSum : (r - 1 + r) * (den * 2 ^ s) = (r - 1) * (den * 2 ^ s) + r * (den * 2 ^ s) :=
    add_mul ..
  have hhighSum : (r + (r + 1)) * (den * 2 ^ s) = 2 * (r * (den * 2 ^ s)) + den * 2 ^ s := by
    ring
  constructor <;> rw [add_mul]
  · omega
  · omega
  · rw [add_mul]
    omega

theorem rounds_unboundedPattern {num den : ℕ} (hden : 0 < den) :
    Rounds patternMagnitude num den (unboundedPattern num den) := by
  rw [unboundedPattern, Nat.shiftLeft_eq]
  set s := Nat.log2 (num / den) - 52 with hs
  have hunit : 0 < den * 2 ^ s := by positivity
  have hround := rounds_divHalfEven num hunit
  have hdouble : 2 * smallestNormal = 2 ^ 53 := by norm_num [smallestNormal_eq]
  have hbelow : num ≤ 2 * smallestNormal * (den * 2 ^ s) := by
    have hlog : num / den < 2 ^ (53 + s) :=
      Nat.lt_log2_self.trans_le (Nat.pow_le_pow_right (by omega) (by omega))
    have : num < 2 ^ (53 + s) * den := (Nat.div_lt_iff_lt_mul hden).1 hlog
    rw [hdouble, mul_comm den, ← mul_assoc, ← pow_add]
    exact this.le
  have habove : s = 0 ∨ smallestNormal * (den * 2 ^ s) ≤ num := by
    rcases Nat.eq_zero_or_pos s with hzero | hpos
    · exact .inl hzero
    · right
      have hlog : 2 ^ (52 + s) ≤ num / den := by
        rw [hs, Nat.add_sub_cancel' (by omega)]
        exact Nat.log2_self_le fun h => by simp [hs, h] at hpos
      rw [smallestNormal_eq, mul_comm den, ← mul_assoc, ← pow_add]
      exact (Nat.le_div_iff_mul_le hden).1 hlog
  exact rounds_binade hround hden
    (hround.index_le strictMono_id (Rounds.refl strictMono_id hunit _) hunit hunit
      (Nat.mul_le_mul_right _ hbelow)) habove

theorem nearestPattern_eq {num den b : ℕ} (hden : 0 < den)
    (h : Rounds patternMagnitude num den b) (hb : b ≤ infinityPattern) :
    nearestPattern num den = b := by
  rw [nearestPattern_eq_min,
    (rounds_unboundedPattern hden).index_eq strictMono_patternMagnitude h hden hden rfl]
  exact min_eq_right hb

theorem nearestPattern_mono {num₁ den₁ num₂ den₂ : ℕ} (hden₁ : 0 < den₁) (hden₂ : 0 < den₂)
    (h : num₁ * den₂ ≤ num₂ * den₁) : nearestPattern num₁ den₁ ≤ nearestPattern num₂ den₂ :=
  min_le_min_left _ ((rounds_unboundedPattern hden₁).index_le strictMono_patternMagnitude
    (rounds_unboundedPattern hden₂) hden₁ hden₂ h)

end VideoFingerprint.Binary64
