import VideoFingerprint.Matching.Result
import VideoFingerprint.Proofs.Number.Arithmetic

/-!
Scores as fractions. The part of a whole lies between zero and one and grows with the part, as
long as the numbers fit machine words, so that none of them becomes infinite.
-/

namespace VideoFingerprint

open Binary64

variable {part larger whole : ℕ}

/-- A fraction is the double nearest to a quotient, which is never negative. -/
theorem coverage_eq (hpart : part ≤ 2 ^ 64) (hwhole : whole ≤ 2 ^ 64) (hpos : 0 < whole) :
    0 < magnitude (Float.ofNat whole) ∧ coverage part whole = ofPattern false
      (nearestPattern (magnitude (Float.ofNat part) * unit)
        (magnitude (Float.ofNat whole))) := by
  constructor
  · have hmono := strictMono_patternMagnitude (pattern_ofNat_pos hpos)
    rwa [patternMagnitude_zero] at hmono
  · rw [coverage, if_neg hpos.ne', div_ofNat_eq hpart hwhole hpos]

/-- The whole covers itself. -/
theorem coverage_self {n : ℕ} (hpos : 0 < n) (hn : n ≤ 2 ^ 64) : coverage n n = 1 := by
  obtain ⟨hmagnitude, heq⟩ := coverage_eq hn hn hpos
  have hone : (1 : Float) = ofPattern false (nearestPattern unit 1) := by decide +kernel
  rw [heq, hone, nearestPattern_congr hmagnitude Nat.one_pos]
  ring

theorem coverage_mono (h : part ≤ larger) (hlarger : larger ≤ 2 ^ 64)
    (hwhole : whole ≤ 2 ^ 64) :
    coverage part whole ≤ coverage larger whole := by
  rcases Nat.eq_zero_or_pos whole with rfl | hpos
  · show (0 : Float) ≤ 0
    decide
  · obtain ⟨hmagnitude, heq⟩ := coverage_eq (h.trans hlarger) hwhole hpos
    obtain ⟨-, heq'⟩ := coverage_eq hlarger hwhole hpos
    rw [heq, heq']
    refine ofPattern_le_ofPattern (nearestPattern_le _ _)
      (nearestPattern_mono hmagnitude hmagnitude ?_)
    exact Nat.mul_le_mul_right _ (Nat.mul_le_mul_right unit (magnitude_ofNat_mono h))

theorem coverage_nonneg_and_le_one (h : part ≤ whole) (hwhole : whole ≤ 2 ^ 64) :
    0 ≤ coverage part whole ∧ coverage part whole ≤ 1 := by
  rcases Nat.eq_zero_or_pos whole with rfl | hpos
  · show (0 : Float) ≤ 0 ∧ (0 : Float) ≤ 1
    decide
  · obtain ⟨hmagnitude, heq⟩ := coverage_eq (h.trans hwhole) hwhole hpos
    have hzero : (0 : Float) = ofPattern false 0 := by decide +kernel
    have hone : (1 : Float) = ofPattern false (nearestPattern unit 1) := by decide +kernel
    rw [heq, hzero, hone]
    refine ⟨ofPattern_le_ofPattern (nearestPattern_le _ _) (Nat.zero_le _),
      ofPattern_le_ofPattern (nearestPattern_le _ _)
        (nearestPattern_mono hmagnitude Nat.one_pos ?_)⟩
    rw [Nat.mul_one, Nat.mul_comm]
    exact Nat.mul_le_mul_left unit (magnitude_ofNat_mono h)

end VideoFingerprint
