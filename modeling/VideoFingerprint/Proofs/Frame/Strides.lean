import Mathlib.Algebra.Order.Floor.Div
import VideoFingerprint.Proofs.Frame.Windows

/-!
Box filters with a stride. A buffer is filtered in place along every `stride`th place from the
first one on; the last of these places may be the last one of the buffer, and a window may be
wider than the whole line. In exact arithmetic the values on the line become means of what they
were before, and the values between them stay.
-/

namespace VideoFingerprint

open Finset

variable {n size stride : ℕ}

/-! ### Strided lines -/

namespace Line

theorem count_strided (h : 0 < stride) : (strided size stride h).count = size ⌈/⌉ stride :=
  (Nat.ceilDiv_eq_add_pred_div size stride).symm

/-- A strided line ends with the buffer. -/
theorem lt_count_strided_iff (h : 0 < stride) {i : ℕ} :
    i < (strided size stride h).count ↔ i * stride < size := by
  rw [count_strided, ← not_le, ceilDiv_le_iff_le_mul h, not_le, Nat.mul_comm]

theorem place_strided (h : 0 < stride) (i : Fin (strided size stride h).count) :
    ((strided size stride h).place i).val = i * stride := Nat.zero_add _

theorem exists_place_strided_iff (h : 0 < stride) (k : Fin size) :
    (∃ i, k = (strided size stride h).place i) ↔ stride ∣ k.val := by
  constructor
  · rintro ⟨i, rfl⟩
    rw [place_strided]
    exact Nat.dvd_mul_left _ _
  · rintro ⟨i, hi⟩
    have hcount : i < (strided size stride h).count := by
      rw [lt_count_strided_iff, Nat.mul_comm, ← hi]
      exact k.isLt
    refine ⟨⟨i, hcount⟩, Fin.ext ?_⟩
    rw [place_strided, hi, Nat.mul_comm]

end Line

/-! ### Ends of windows -/

/-- The window around the `i`th value of a line goes from `first` to `last`. Both lie on the
line, so there are sums up to them; the value itself lies between them, so a mean is never
taken over nothing. -/
structure Spans (window : ℕ) (i first last : Fin n) : Prop where
  start : windowStart window i = first.val
  stop : windowEnd window n i = last.val
  first_eq : first.val = i.val - (window - 1) / 2
  last_eq : last.val = min (n - 1) (i.val + (window - 1 - (window - 1) / 2))
  around : first ≤ i ∧ i ≤ last
  divisor : 0 < last.val + 1 - first.val

theorem exists_spans (window : ℕ) (i : Fin n) : ∃ first last, Spans window i first last := by
  have hfirst : windowStart window i ≤ i.val := windowStart_le window i
  have hlast : i.val ≤ windowEnd window n i := le_windowEnd i.isLt
  refine ⟨⟨_, hfirst.trans_lt i.isLt⟩, ⟨_, windowEnd_lt i.isLt⟩, rfl, rfl, rfl,
    Nat.min_comm _ _, ⟨hfirst, hlast⟩, ?_⟩
  dsimp only
  omega

theorem Spans.windowAround_eq {window : ℕ} {i first last : Fin n}
    (h : Spans window i first last) :
    windowAround window i = Icc first last := by
  ext j
  rw [mem_windowAround_iff, mem_Icc, h.start, h.stop]
  rfl

/-- The mean over a window, with the divisor that the filter takes. -/
theorem Spans.windowMean_eq {window : ℕ} {i first last : Fin n} (h : Spans window i first last)
    (f : Fin n → ℝ) :
    windowMean window f i = (∑ j ∈ Icc first last, f j) / (last.val + 1 - first.val : ℕ) := by
  rw [windowMean, h.windowAround_eq, Fin.card_Icc]

/-! ### Filters with a stride -/

/-- A box filter on any line of a buffer, such as a row or a column of a plane. -/
theorem boxFilter_line (line : Line size) (window : ℕ) (data : Vector ℝ size) :
    (∀ i, ∃ first last, Spans window i first last ∧
      (boxFilter line window data).get (line.place i) =
      (∑ j ∈ Icc first last, data.get (line.place j)) / (last.val + 1 - first.val : ℕ)) ∧
    ∀ k, (∀ i, k ≠ line.place i) → (boxFilter line window data).get k = data.get k := by
  have hworks := worksOn_boxFilter line window
  refine ⟨fun i => ?_, hworks.off_line data⟩
  obtain ⟨first, last, hspans⟩ := exists_spans window i
  refine ⟨first, last, hspans, ?_⟩
  rw [hworks.on_line data i, hspans.windowMean_eq]

/-- What a box filter does to a buffer of any length, with any stride and any window. It works
on the places that are multiples of the stride. The value at each of them becomes the mean of
the values that were in the window around it, from `(window - 1) / 2` values before it, or the
first one, to the rest of the window after it, or the last one. All other values stay. -/
theorem boxFilter_strided (hstride : 0 < stride) (window : ℕ) (data : Vector ℝ size) :
    let line := Line.strided size stride hstride
    let filtered := boxFilter line window data
    line.count = size ⌈/⌉ stride ∧ (∀ i, i < line.count ↔ i * stride < size) ∧
    (∀ i : Fin line.count, (line.place i).val = i * stride ∧
      ∃ first last, Spans window i first last ∧
      filtered.get (line.place i) =
        (∑ j ∈ Icc first last, data.get (line.place j)) / (last.val + 1 - first.val : ℕ)) ∧
    ∀ k : Fin size, ¬ stride ∣ k.val → filtered.get k = data.get k := by
  intro line filtered
  obtain ⟨hmeans, hkept⟩ := boxFilter_line line window data
  refine ⟨Line.count_strided hstride, fun i => Line.lt_count_strided_iff hstride,
    fun i => ⟨Line.place_strided hstride i, hmeans i⟩, fun k hk => hkept k fun i hi => hk ?_⟩
  exact (Line.exists_place_strided_iff hstride k).1 ⟨i, hi⟩

def twoColumns : Vector ℝ 5 := #v[3, 100, 6, 100, 9]

/-- A window of four values reaches one value back and two on. Around the last value of the
first column, which is the last one of all, it holds two values; the second column stays. -/
theorem boxFilter_strided_twoColumns : 0 < 2 ∧ ¬ 2 ∣ 3 ∧
    (boxFilter (.strided 5 2 (by decide)) 4 twoColumns).get 4 = 15 / 2 ∧
    (boxFilter (.strided 5 2 (by decide)) 4 twoColumns).get 3 = 100 := by
  obtain ⟨-, -, hmeans, hkept⟩ := boxFilter_strided (show 0 < 2 by decide) 4 twoColumns
  refine ⟨by decide, by decide, ?_, hkept 3 (by decide)⟩
  obtain ⟨-, first, last, hspans, hvalue⟩ := hmeans ⟨2, by decide⟩
  obtain rfl : first = ⟨1, by decide⟩ := Fin.ext hspans.first_eq
  obtain rfl : last = ⟨2, by decide⟩ := Fin.ext hspans.last_eq
  have hwindow :
      (Icc ⟨1, by decide⟩ ⟨2, by decide⟩ : Finset (Fin (Line.strided 5 2 (by decide)).count)) =
      {⟨1, by decide⟩, ⟨2, by decide⟩} := by decide
  rw [hwindow, sum_pair (by decide)] at hvalue
  calc (boxFilter (.strided 5 2 (by decide)) 4 twoColumns).get 4 = (6 + 9) / (2 : ℕ) := hvalue
    _ = 15 / 2 := by norm_num

end VideoFingerprint
