import Mathlib.Algebra.BigOperators.Pi
import Mathlib.Algebra.Order.BigOperators.Ring.Finset
import VideoFingerprint.Proofs.Frame.Windows

/-!
Averages. An average of finitely many values weighs them with weights that do not depend on
them, so averages of averages are averages again, they stay between the least and the greatest
value, and they go along with a change of scale and origin.
-/

namespace VideoFingerprint

open Finset

variable {ι κ : Type} [Fintype ι] [Fintype κ]

def IsAverage (average : (ι → ℝ) → ℝ) : Prop :=
  ∃ weight : ι → ℝ, (∀ i, 0 ≤ weight i) ∧ ∑ i, weight i = 1 ∧
    ∀ f, average f = ∑ i, weight i * f i

theorem isAverage_value [DecidableEq ι] (i : ι) : IsAverage fun f : ι → ℝ => f i := by
  refine ⟨Pi.single i 1, fun j => ?_, ?_, fun f => ?_⟩
  · by_cases h : j = i
    · subst h; simp
    · simp [h]
  · simp
  · simp [Pi.single_apply]

theorem isAverage_windowMean {n : ℕ} (window : ℕ) (i : Fin n) :
    IsAverage fun f => windowMean window f i := by
  have hpos : (0 : ℝ) < (windowAround window i).card := by
    exact_mod_cast card_windowAround_pos window i
  refine ⟨fun j => if j ∈ windowAround window i then ((windowAround window i).card : ℝ)⁻¹
    else 0, fun j => ?_, ?_, fun f => ?_⟩
  · dsimp only
    split
    · exact inv_nonneg.2 hpos.le
    · exact le_rfl
  · rw [sum_ite_mem, univ_inter, sum_const, nsmul_eq_mul, mul_inv_cancel₀ hpos.ne']
  · simp only [ite_mul, zero_mul]
    rw [sum_ite_mem, univ_inter, windowMean, div_eq_inv_mul, mul_sum]

namespace IsAverage

variable {average : (ι → ℝ) → ℝ}

/-- An average of averages. -/
theorem comp (h : IsAverage average) {inner : ι → (κ → ℝ) → ℝ}
    (hinner : ∀ i, IsAverage (inner i)) :
    IsAverage fun f => average fun i => inner i f := by
  obtain ⟨weight, hnonneg, hone, haverage⟩ := h
  choose weight' hnonneg' hone' haverage' using hinner
  refine ⟨fun k => ∑ i, weight i * weight' i k,
    fun k => sum_nonneg fun i _ => mul_nonneg (hnonneg i) (hnonneg' i k), ?_, fun f => ?_⟩
  · rw [sum_comm]
    simp only [← mul_sum, hone', mul_one, hone]
  · dsimp only
    rw [haverage]
    simp only [haverage', mul_sum, sum_mul, mul_assoc]
    exact sum_comm

/-- An average of values seen through a map of their places. -/
theorem comap (h : IsAverage average) [DecidableEq κ] (place : ι → κ) :
    IsAverage fun f : κ → ℝ => average fun i => f (place i) :=
  h.comp fun i => isAverage_value (place i)

theorem affine (h : IsAverage average) (a b : ℝ) (f : ι → ℝ) :
    (average fun i => a * f i + b) = a * average f + b := by
  obtain ⟨weight, -, hone, haverage⟩ := h
  calc (average fun i => a * f i + b) = ∑ i, (a * (weight i * f i) + weight i * b) := by
        rw [haverage]
        exact sum_congr rfl fun i _ => by ring
    _ = a * average f + b := by
        rw [sum_add_distrib, ← mul_sum, ← sum_mul, hone, one_mul, haverage]

theorem const (h : IsAverage average) (c : ℝ) : (average fun _ => c) = c := by
  have hconst := h.affine 0 c fun _ => 0
  simpa using hconst

theorem le_of_forall_le (h : IsAverage average) {f : ι → ℝ} {high : ℝ} (hf : ∀ i, f i ≤ high) :
    average f ≤ high := by
  obtain ⟨weight, hnonneg, hone, haverage⟩ := h
  calc average f = ∑ i, weight i * f i := haverage f
    _ ≤ ∑ i, weight i * high :=
        sum_le_sum fun i _ => mul_le_mul_of_nonneg_left (hf i) (hnonneg i)
    _ = high := by rw [← sum_mul, hone, one_mul]

theorem le_of_forall_ge (h : IsAverage average) {f : ι → ℝ} {low : ℝ} (hf : ∀ i, low ≤ f i) :
    low ≤ average f := by
  obtain ⟨weight, hnonneg, hone, haverage⟩ := h
  calc low = ∑ i, weight i * low := by rw [← sum_mul, hone, one_mul]
    _ ≤ ∑ i, weight i * f i :=
        sum_le_sum fun i _ => mul_le_mul_of_nonneg_left (hf i) (hnonneg i)
    _ = average f := (haverage f).symm

end IsAverage

end VideoFingerprint
