import Mathlib.Algebra.BigOperators.Fin
import Mathlib.Algebra.BigOperators.Field
import Mathlib.Order.Interval.Finset.Fin
import VideoFingerprint.Proofs.Frame.Lines
import VideoFingerprint.Proofs.Number.Real

/-!
Means over windows, and averages in general. A box filter takes differences of running sums; in
exact arithmetic each is the mean of the values in the window, as they were before the filter
wrote to the line.
-/

namespace VideoFingerprint

open Finset

variable {n : ℕ}

/-! ### Windows -/

/-- The places in the window around a place: half of the other places, rounded down, may lie
before it, the rest after it. -/
def windowAround (window : ℕ) (i : Fin n) : Finset (Fin n) :=
  univ.filter fun j => i.val ≤ j.val + (window - 1) / 2 ∧
    j.val ≤ i.val + (window - 1 - (window - 1) / 2)

noncomputable def windowMean (window : ℕ) (f : Fin n → ℝ) (i : Fin n) : ℝ :=
  (∑ j ∈ windowAround window i, f j) / (windowAround window i).card

theorem self_mem_windowAround (window : ℕ) (i : Fin n) : i ∈ windowAround window i := by
  simp [windowAround]

theorem card_windowAround_pos (window : ℕ) (i : Fin n) : 0 < (windowAround window i).card :=
  card_pos.2 ⟨i, self_mem_windowAround window i⟩

theorem windowStart_le (window : ℕ) (i : ℕ) : windowStart window i ≤ i := Nat.sub_le _ _

theorem le_windowEnd {window i : ℕ} (h : i < n) : i ≤ windowEnd window n i := by
  simp only [windowEnd]
  omega

theorem windowEnd_lt {window i : ℕ} (h : i < n) : windowEnd window n i < n := by
  simp only [windowEnd]
  omega

theorem mem_windowAround_iff {window : ℕ} {i j : Fin n} :
    j ∈ windowAround window i ↔ windowStart window i ≤ j.val ∧
      j.val ≤ windowEnd window n i := by
  have := j.isLt
  simp only [windowAround, mem_filter, mem_univ, true_and, windowStart, windowEnd]
  omega

theorem card_windowAround (window : ℕ) (i : Fin n) :
    (windowAround window i).card = windowEnd window n i + 1 - windowStart window i := by
  have hfirst : windowStart window i < n := (windowStart_le window i).trans_lt i.isLt
  have hIcc : windowAround window i =
      Icc ⟨windowStart window i, hfirst⟩ ⟨windowEnd window n i, windowEnd_lt i.isLt⟩ := by
    ext j
    rw [mem_windowAround_iff, mem_Icc]
    rfl
  rw [hIcc, Fin.card_Icc]

/-- A window of one place. -/
theorem windowMean_of_le_one {window : ℕ} (h : window ≤ 1) (f : Fin n → ℝ) :
    windowMean window f = f := by
  funext i
  have hsingle : windowAround window i = {i} := by
    ext j
    simp only [windowAround, mem_filter, mem_univ, true_and, mem_singleton, Fin.ext_iff]
    omega
  rw [windowMean, hsingle, sum_singleton, card_singleton, Nat.cast_one, div_one]

/-! ### Running sums -/

theorem get_runningSums (v : Vector ℝ n) (k : Fin (n + 1)) :
    (runningSums v).get k = ∑ j : Fin n with j.val < k.val, v.get j := by
  have hvalues : v.toList = List.ofFn v.get := by
    refine List.ext_getElem (by simp) fun i hi _ => ?_
    rw [List.getElem_ofFn, Vector.getElem_toList]
    rfl
  have hsum : (runningSums v).get k = (v.toList.take k).foldl (· + ·) ((0 : ℕ) : ℝ) := by
    rw [get_eq_getElem]
    simp only [runningSums, Vector.getElem_mk, List.getElem_toArray, List.getElem_scanl]
    rfl
  rw [hsum, Nat.cast_zero, ← List.sum_eq_foldl, hvalues, List.sum_take_ofFn]

/-- Differences of running sums are sums over windows. -/
theorem get_windowMeans (window : ℕ) (v : Vector ℝ n) (i : Fin n) :
    (windowMeans window v).get i = windowMean window v.get i := by
  have hcard := card_windowAround window i
  have hstart := windowStart_le window i
  have hend : i.val ≤ windowEnd window n i := le_windowEnd i.isLt
  have hsplit : ∑ j : Fin n with j.val < windowEnd window n i + 1, v.get j =
      ∑ j : Fin n with j.val < windowStart window i, v.get j + ∑ j ∈ windowAround window i,
        v.get j := by
    rw [← sum_union]
    · congr 1
      ext j
      simp only [mem_filter, mem_univ, true_and, mem_union, mem_windowAround_iff]
      omega
    · rw [disjoint_left]
      intro j hbefore hin
      rw [mem_filter] at hbefore
      rw [mem_windowAround_iff] at hin
      omega
  rw [windowMeans, get_ofFn]
  show ((runningSums v).get _ - (runningSums v).get _) / ((_ : ℕ) : ℝ) = _
  rw [get_runningSums, get_runningSums, hsplit, windowMean, hcard, add_sub_cancel_left]

/-- A box filter replaces the values on a line by the means of their windows and
changes nothing else. -/
theorem worksOn_boxFilter {size : ℕ} (l : Line size) (window : ℕ) :
    l.WorksOn (windowMean window) (boxFilter (α := ℝ) l window) := by
  unfold boxFilter
  split
  · rename_i h
    rw [funext (windowMean_of_le_one h)]
    exact ⟨fun data i => rfl, fun data k _ => rfl⟩
  · have hmeans : (fun values i => (windowMeans window (Vector.ofFn values)).get i) =
        (windowMean window : (Fin l.count → ℝ) → Fin l.count → ℝ) := by
      funext values i
      rw [get_windowMeans, funext (get_ofFn values)]
    rw [← hmeans]
    exact l.worksOn_write (windowMeans window)

end VideoFingerprint
