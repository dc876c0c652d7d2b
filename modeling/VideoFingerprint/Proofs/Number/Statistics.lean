import Mathlib.Algebra.BigOperators.Ring.List
import Mathlib.Data.List.GetD
import Mathlib.Tactic.Ring
import VideoFingerprint.Proofs.Number.Real

/-!
Sums, medians and standard deviations of real numbers. They go along with a change of scale: a
median as long as the order is kept, a standard deviation as long as no sign is changed.
-/

namespace VideoFingerprint.Scalar

variable {a : ℝ}

theorem sum_map_mul (a : ℝ) (values : List ℝ) : sum (values.map (a * ·)) = a * sum values := by
  rw [sum_real, sum_real, List.sum_map_mul_left, List.map_id']

theorem middle_map_mul (a : ℝ) (sorted : List ℝ) :
    middle (sorted.map (a * ·)) = a * middle sorted := by
  simp only [middle, List.length_map, List.getElem?_map]
  cases hhigh : sorted[sorted.length / 2]? with
  | none => simp [ofNat_real]
  | some high =>
      have hlow : (sorted.map (a * ·)).getD (sorted.length / 2 - 1) (a * high) =
          a * sorted.getD (sorted.length / 2 - 1) high := List.getD_map _ _ (a * ·)
      simp only [Option.map_some, hlow]
      split
      · ring
      · rfl

theorem median_map_mul (ha : 0 < a) (values : List ℝ) :
    median (values.map (a * ·)) = a * median values := by
  have hsorted : (values.mergeSort sortsBefore).map (a * ·) =
      (values.map (a * ·)).mergeSort sortsBefore :=
    List.map_mergeSort fun x _ y _ => by simp [sortsBefore_real, ha]
  rw [median, ← hsorted, middle_map_mul]
  rfl

theorem standardDeviation_map_mul (ha : 0 ≤ a) (values : List ℝ) :
    standardDeviation (values.map (a * ·)) = a * standardDeviation values := by
  simp only [standardDeviation, List.isEmpty_map, List.length_map, sum_map_mul, List.map_map]
  split
  · simp [ofNat_real]
  · have hsquares (mean : ℝ) :
      (values.map ((fun v => (v - a * mean) * (v - a * mean)) ∘ (a * ·))) =
        (values.map fun v => (v - mean) * (v - mean)).map (a * a * ·) := by
      rw [List.map_map]
      refine List.map_congr_left fun v _ => ?_
      simp only [Function.comp_apply]
      ring
    rw [mul_div_assoc, hsquares, sum_map_mul, mul_div_assoc, sqrt_real, sqrt_real,
      Real.sqrt_mul (mul_self_nonneg a), Real.sqrt_mul_self ha]

/-- Values that differ have a standard deviation. -/
theorem standardDeviation_pos {values : List ℝ} {x y : ℝ} (hx : x ∈ values) (hy : y ∈ values)
    (hxy : x ≠ y) : 0 < standardDeviation values := by
  have hne : values ≠ [] := List.ne_nil_of_mem hx
  have hlength : (0 : ℝ) < values.length := by exact_mod_cast List.length_pos_of_mem hx
  rw [standardDeviation, if_neg (by simpa using hne), sqrt_real, Real.sqrt_pos, ofNat_real]
  generalize sum values / (values.length : ℝ) = mean
  refine div_pos ?_ hlength
  rw [sum_real]
  have hsquare {v : ℝ} (hv : v ∈ values) :
      (v - mean) * (v - mean) ≤ (values.map fun v => (v - mean) * (v - mean)).sum := by
    refine List.single_le_sum (fun s hs => ?_) _ (List.mem_map_of_mem hv)
    obtain ⟨w, -, rfl⟩ := List.mem_map.1 hs
    exact mul_self_nonneg _
  by_cases hmean : x = mean
  · have hother : y - mean ≠ 0 := sub_ne_zero.2 fun h => hxy (hmean.trans h.symm)
    exact (mul_self_pos.2 hother).trans_le (hsquare hy)
  · exact (mul_self_pos.2 (sub_ne_zero.2 hmean)).trans_le (hsquare hx)

/-! ### Values that are all zero -/

theorem map_mul_replicate_zero (a : ℝ) (n : ℕ) :
    (List.replicate n (0 : ℝ)).map (a * ·) = List.replicate n 0 := by
  rw [List.map_replicate, mul_zero]

theorem median_replicate_zero (n : ℕ) : median (List.replicate n (0 : ℝ)) = 0 := by
  have hsorted : (List.replicate n (0 : ℝ)).mergeSort sortsBefore = List.replicate n 0 :=
    List.mergeSort_of_pairwise (List.pairwise_replicate.2 (.inr (by simp [sortsBefore_real])))
  rw [median, hsorted, ← map_mul_replicate_zero 0, middle_map_mul, zero_mul]

theorem standardDeviation_replicate_zero (n : ℕ) :
    standardDeviation (List.replicate n (0 : ℝ)) = 0 := by
  rw [← map_mul_replicate_zero 0, standardDeviation_map_mul le_rfl, zero_mul]

end VideoFingerprint.Scalar
