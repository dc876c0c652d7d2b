import Mathlib.Algebra.Order.Field.Basic
import VideoFingerprint.Proofs.Number.Exact
import VideoFingerprint.Proofs.Sampling.Selection
import VideoFingerprint.Proofs.Sorting

/-!
Sampling on the grid, where numbers do not round. A sampler remembers only the next sample
time. This is always the end of the cell in which the last decoded frame lies, so a frame is
taken exactly when it is the first one in its cell: no cell with a frame is passed over, none
gives two samples, and the cells do not drift away from the first frame, however the frames are
spaced.
-/

namespace VideoFingerprint

variable {π : Type} {s origin t u : ℚ} {k : ℤ}

/-! ### Cells -/

/-- The number of the grid cell of a time. A cell is as long as the interval, the first one
begins at the first frame, and a time counts as a millionth of a second later than it is. -/
def gridCell (s origin t : ℚ) : ℤ := ⌊(t - origin + 1 / 1000000) / s⌋

theorem le_gridCell_iff (hs : 0 < s) :
    k ≤ gridCell s origin t ↔ origin + k * s ≤ t + 1 / 1000000 := by
  rw [gridCell, Int.le_floor, le_div_iff₀ hs]
  constructor <;> intro h <;> linarith

theorem gridCell_lt_iff (hs : 0 < s) :
    gridCell s origin t < k ↔ t + 1 / 1000000 < origin + k * s := by
  rw [← not_le, le_gridCell_iff hs, not_le]

theorem gridCell_mono (hs : 0 < s) (h : t ≤ u) :
    gridCell s origin t ≤ gridCell s origin u := by
  have ht := (le_gridCell_iff hs).1 (le_refl (gridCell s origin t))
  exact (le_gridCell_iff hs).2 (by linarith)

/-- The first frame lies in the first cell. -/
theorem gridCell_origin (hs : 1 / 1000000 < s) : gridCell s origin origin = 0 := by
  have hpos : 0 < s := lt_trans (by norm_num) hs
  have hle : 0 ≤ gridCell s origin origin := (le_gridCell_iff hpos).2 (by norm_num)
  have hlt : gridCell s origin origin < 1 := (gridCell_lt_iff hpos).2 (by norm_num; linarith)
  omega

def firstInCell (s origin : ℚ) (frames : List (DecodedFrame ℚ π)) : List (Frame ℚ π) :=
  (numberedFrom 0 frames).filter fun x =>
    ∀ f ∈ frames.take x.number, gridCell s origin f.time ≠ gridCell s origin x.time

section FirstInCell

variable {fs : List (DecodedFrame ℚ π)} {f : DecodedFrame ℚ π} {x : Frame ℚ π}

theorem firstInCell_append_singleton :
    firstInCell s origin (fs ++ [f]) = firstInCell s origin fs ++
    if ∀ g ∈ fs, gridCell s origin g.time ≠ gridCell s origin f.time then
      [⟨fs.length, f.time, f.image⟩] else [] := by
  rw [firstInCell, numberedFrom, List.mapIdx_append, List.filter_append]
  congr 1
  · refine List.filter_congr fun x hx => ?_
    obtain ⟨i, hi, rfl⟩ := mem_numberedFrom_zero.1 hx
    rw [List.take_append_of_le_length (Nat.le_of_lt hi)]
  · simp [List.filter_singleton]

/-- What comes first in its cell is one of the frames. -/
theorem exists_mem_of_mem_firstInCell (hx : x ∈ firstInCell s origin fs) :
    ∃ f ∈ fs, f.time = x.time := by
  obtain ⟨i, hi, rfl⟩ := mem_numberedFrom_zero.1 (List.mem_filter.1 hx).1
  exact ⟨fs[i], List.getElem_mem hi, rfl⟩

/-- Cells of later samples come later. -/
theorem pairwise_firstInCell (hs : 0 < s) (hrising : fs.Pairwise fun f g => f.time ≤ g.time) :
    (firstInCell s origin fs).Pairwise fun x y => gridCell s origin x.time <
      gridCell s origin y.time := by
  induction fs using List.reverseRecOn with
  | nil => exact List.Pairwise.nil
  | append_singleton fs f ih =>
      obtain ⟨hrising, -, hlast⟩ := List.pairwise_append.1 hrising
      rw [firstInCell_append_singleton]
      split
      · rename_i hnew
        refine List.pairwise_append.2 ⟨ih hrising, List.pairwise_singleton _ _,
          fun x hx y hy => ?_⟩
        obtain rfl := List.mem_singleton.1 hy
        obtain ⟨g, hg, htime⟩ := exists_mem_of_mem_firstInCell hx
        rw [← htime]
        exact lt_of_le_of_ne (gridCell_mono hs (hlast g hg f List.mem_cons_self)) (hnew g hg)
      · rw [List.append_nil]
        exact ih hrising

/-- Every cell that holds a frame has a first one. -/
theorem exists_mem_firstInCell (hf : f ∈ fs) :
    ∃ x ∈ firstInCell s origin fs, gridCell s origin x.time = gridCell s origin f.time := by
  induction fs using List.reverseRecOn generalizing f with
  | nil => cases hf
  | append_singleton fs g ih =>
      rw [firstInCell_append_singleton]
      by_cases hseen : ∃ h ∈ fs, gridCell s origin h.time = gridCell s origin f.time
      · obtain ⟨h, hh, hcell⟩ := hseen
        obtain ⟨x, hx, hsame⟩ := ih hh
        exact ⟨x, List.mem_append_left _ hx, hsame.trans hcell⟩
      · rcases List.mem_append.1 hf with hf | hf
        · exact absurd ⟨f, hf, rfl⟩ hseen
        · obtain rfl := List.mem_singleton.1 hf
          rw [if_pos fun h hh hcell => hseen ⟨h, hh, hcell⟩]
          exact ⟨_, List.mem_append_right _ (List.mem_singleton_self _), rfl⟩

/-- A cell that holds a frame has exactly one first one. -/
theorem existsUnique_mem_firstInCell (hs : 0 < s)
    (hrising : fs.Pairwise fun f g => f.time ≤ g.time) (hf : f ∈ fs) :
    ∃! x, x ∈ firstInCell s origin fs ∧
      gridCell s origin x.time = gridCell s origin f.time := by
  obtain ⟨x, hx, hcell⟩ :
    ∃ x ∈ firstInCell s origin fs, gridCell s origin x.time = gridCell s origin f.time :=
    exists_mem_firstInCell hf
  refine ⟨x, ⟨hx, hcell⟩, fun y hy => ?_⟩
  by_contra hne
  rcases rel_or_rel_of_pairwise (pairwise_firstInCell hs hrising) hy.1 hx hne with
    hlt | hlt <;> omega

/-- A sample is the first decoded frame that reaches the beginning of its cell, and does not
reach the end. -/
theorem grid_of_mem_firstInCell (hs : 0 < s) (hrising : fs.Pairwise fun f g => f.time ≤ g.time)
    (hx : x ∈ firstInCell s origin fs) (hk : gridCell s origin x.time = k) :
    origin + k * s ≤ x.time + 1 / 1000000 ∧ x.time + 1 / 1000000 < origin + (k + 1) * s ∧
      ∀ f ∈ fs.take x.number, f.time + 1 / 1000000 < origin + k * s := by
  refine ⟨(le_gridCell_iff hs).1 hk.ge, ?_, fun f hf => (gridCell_lt_iff hs).1 ?_⟩
  · have hlt :=
      (gridCell_lt_iff (k := k + 1) hs).1 (by omega : gridCell s origin x.time < k + 1)
    rwa [Int.cast_add, Int.cast_one] at hlt
  · obtain ⟨hplace, hfirst⟩ := List.mem_filter.1 hx
    obtain ⟨i, hi, rfl⟩ := mem_numberedFrom_zero.1 hplace
    have hle : f.time ≤ fs[i].time := by
      have happend : fs = fs.take i ++ fs[i] :: fs.drop (i + 1) := by simp
      rw [happend] at hrising
      exact (List.pairwise_append.1 hrising).2.2 f hf _ List.mem_cons_self
    exact hk ▸ lt_of_le_of_ne (gridCell_mono hs hle) (of_decide_eq_true hfirst f hf)

end FirstInCell

/-! ### The next sample time -/

namespace Cadence

theorem tolerance_rat : (tolerance : ℚ) = 1 / 1000000 := by
  change ((1 : ℕ) : ℚ) / ((1000000 : ℕ) : ℚ) = 1 / 1000000
  norm_num

theorem cell_rat : cell s origin t = gridCell s origin t := by
  change ((⌊(t - origin + tolerance) / s⌋ : ℤ) : ℚ) = gridCell s origin t
  rw [tolerance_rat, gridCell]

theorem intervalOf_rat (hs : 0 ≤ s) : intervalOf s = s := by
  rw [intervalOf, Scalar.lt_rat, Scalar.ofNat_rat, Nat.cast_zero]
  rcases hs.eq_or_lt with rfl | hpos
  · simp
  · rw [if_pos (decide_eq_true hpos)]

theorem offer_zero (c : Cadence ℚ) (t : ℚ) : (c.offer 0 t).1 = true := by
  obtain ⟨origin, due⟩ := c
  cases origin with
  | none => rfl
  | some origin => simp [offer, Scalar.le_rat, Scalar.ofNat_rat]

/-- The cadence after a frame in the cell `k`: the next sample time is the end of this cell. -/
def after (s origin : ℚ) (k : ℤ) : Cadence ℚ := ⟨some origin, origin + (k + 1) * s⟩

/-- A frame is taken when its cell is another one than that of the frame before, and the
cadence goes on from it whether it is taken or not. -/
theorem offer_after (hs : 0 < s) (h : k ≤ gridCell s origin t) :
    (after s origin k).offer s t =
      (decide (gridCell s origin t ≠ k), after s origin (gridCell s origin t)) := by
  have hoffer : (after s origin k).offer s t =
      if s ≤ 0 then (true, after s origin k)
      else if t + 1 / 1000000 < origin + (k + 1) * s then (false, after s origin k)
      else (true, after s origin (gridCell s origin t)) := by
    simp only [offer, after, Scalar.le_rat, Scalar.lt_rat, Scalar.ofNat_rat, Nat.cast_zero,
      Nat.cast_one, cell_rat, tolerance_rat, decide_eq_true_eq]
  have hend : gridCell s origin t < k + 1 ↔ t + 1 / 1000000 < origin + (k + 1) * s := by
    rw [gridCell_lt_iff hs, Int.cast_add, Int.cast_one]
  rw [hoffer, if_neg hs.not_ge]
  by_cases hsame : gridCell s origin t = k
  · rw [if_pos (hend.1 (by omega)), hsame]
    simp
  · rw [if_neg fun hlt => hsame (by have := hend.2 hlt; omega)]
    simp [hsame]

theorem offer_start (hs : 1 / 1000000 < s) :
    start.offer s origin = (true, after s origin (gridCell s origin origin)) := by
  rw [gridCell_origin hs, after, Int.cast_zero, zero_add, one_mul]
  rfl

end Cadence

namespace Sampler

section OnGrid

variable {a : Sampler ℚ π} {fs : List (DecodedFrame ℚ π)} {f : DecodedFrame ℚ π}

structure OnGrid (s origin : ℚ) (fs : List (DecodedFrame ℚ π)) (a : Sampler ℚ π) : Prop where
  interval_eq : a.interval = s
  decoded_eq : a.decoded = fs.length
  cadence_eq : a.cadence = .after s origin (gridCell s origin a.lastTime)
  last_mem : ∃ f ∈ fs, f.time = a.lastTime
  le_last : ∀ f ∈ fs, f.time ≤ a.lastTime

/-- The next frame is taken when no frame before lies in its cell. -/
theorem OnGrid.takes_eq (h : OnGrid s origin fs a) (hs : 0 < s) (hf : a.lastTime ≤ f.time) :
    a.takes f =
      if ∀ g ∈ fs, gridCell s origin g.time ≠ gridCell s origin f.time then
        [⟨fs.length, f.time, f.image⟩] else [] := by
  have hcell : gridCell s origin a.lastTime ≤ gridCell s origin f.time := gridCell_mono hs hf
  have hnew : gridCell s origin f.time ≠ gridCell s origin a.lastTime ↔
      ∀ g ∈ fs, gridCell s origin g.time ≠ gridCell s origin f.time := by
    constructor
    · intro hne g hg heq
      have hle : gridCell s origin g.time ≤ gridCell s origin a.lastTime :=
        gridCell_mono hs (h.le_last g hg)
      omega
    · intro hnew heq
      obtain ⟨g, hg, hlast⟩ := h.last_mem
      exact hnew g hg (by rw [hlast, heq])
  rw [takes, h.interval_eq, h.cadence_eq, Cadence.offer_after hs hcell, h.decoded_eq]
  simp only [decide_eq_true_eq, hnew]

theorem OnGrid.advance (h : OnGrid s origin fs a) (hs : 0 < s) (hf : a.lastTime ≤ f.time) :
    OnGrid s origin (fs ++ [f]) (a.advance f.time) where
  interval_eq := h.interval_eq
  decoded_eq := by
    rw [List.length_append, ← h.decoded_eq]
    rfl
  cadence_eq := by
    change (a.cadence.offer a.interval f.time).2 = _
    rw [h.interval_eq, h.cadence_eq, Cadence.offer_after hs (gridCell_mono hs hf)]
    rfl
  last_mem := ⟨f, List.mem_append_right fs (List.mem_singleton_self f), rfl⟩
  le_last g hg := by
    rcases List.mem_append.1 hg with hg | hg
    · exact (h.le_last g hg).trans hf
    · rw [List.mem_singleton.1 hg]
      exact le_refl f.time

variable {first : DecodedFrame ℚ π} {others : List (DecodedFrame ℚ π)}

/-- The first frame is taken, and its cell is the first one. -/
theorem onGrid_first (hs : 1 / 1000000 < s) :
    OnGrid s first.time [first] ((unstarted s).advance first.time) ∧
      (unstarted s).takes first = [⟨0, first.time, first.image⟩] := by
  have hinterval : (unstarted s : Sampler ℚ π).interval = s :=
    Cadence.intervalOf_rat (le_of_lt (lt_trans (by norm_num) hs))
  have hoffer : (unstarted s : Sampler ℚ π).cadence.offer (unstarted s : Sampler ℚ π).interval
      first.time =
      (true, .after s first.time (gridCell s first.time first.time)) := by
    rw [hinterval]
    exact Cadence.offer_start hs
  refine ⟨⟨hinterval, rfl, congrArg Prod.snd hoffer,
    ⟨first, List.mem_singleton_self first, rfl⟩, fun f hf => ?_⟩, ?_⟩
  · rw [List.mem_singleton.1 hf]
    exact le_refl first.time
  · rw [takes, hoffer, if_pos rfl]
    rfl

/-- On the grid a sampler takes the frames that come first in their cells. -/
theorem onGrid_advanceOver (hs : 1 / 1000000 < s)
    (hrising : (first :: others).Pairwise fun f g => f.time ≤ g.time) :
    OnGrid s first.time (first :: others) ((unstarted s).advanceOver (first :: others)) ∧
      (unstarted s).takesFrom (first :: others) =
        firstInCell s first.time (first :: others) := by
  have hpos : 0 < s := lt_trans (by norm_num) hs
  induction others using List.reverseRecOn with
  | nil =>
      refine ⟨(onGrid_first hs).1, ?_⟩
      rw [takesFrom, (onGrid_first hs).2]
      rfl
  | append_singleton others f ih =>
      rw [← List.cons_append] at hrising ⊢
      obtain ⟨hrising, -, hlast⟩ := List.pairwise_append.1 hrising
      obtain ⟨hgrid, htaken⟩ := ih hrising
      obtain ⟨g, hg, htime⟩ := hgrid.last_mem
      have hf := htime ▸ hlast g hg f List.mem_cons_self
      rw [advanceOver_append, takesFrom_append, firstInCell_append_singleton, htaken,
        ← hgrid.takes_eq hpos hf]
      exact ⟨hgrid.advance hpos hf, by simp only [takesFrom, List.append_nil]⟩

end OnGrid

/-! ### All frames of a video -/

section Frames

variable {a : Sampler ℚ π} {frames : List (DecodedFrame ℚ π)}

/-- An interval of zero takes every frame. -/
theorem takesFrom_of_interval_zero (h : a.interval = 0) :
    a.takesFrom frames = numberedFrom a.decoded frames := by
  induction frames generalizing a with
  | nil => rfl
  | cons f frames ih =>
      have htakes : a.takes f = [⟨a.decoded, f.time, f.image⟩] := by
        rw [takes, h, Cadence.offer_zero, if_pos rfl]
      rw [takesFrom, htakes, ih (a := a.advance f.time) h, numberedFrom_cons]
      rfl

theorem timesRise_rat (hrising : frames.Pairwise fun f g => f.time ≤ g.time)
    (hnonneg : ∀ f ∈ frames, 0 ≤ f.time) :
    TimesRise frames where
  inRange f hf := ⟨rfl, decide_eq_false (hnonneg f hf).not_gt⟩
  rising := hrising.imp fun h => decide_eq_false h.not_gt

end Frames

/-- Sampling keeps to the grid that starts at the first frame. Every cell that holds a frame
gives exactly one sample, its first frame, so the cells of the samples rise and no gap is
followed by a burst; a sample is the first frame to reach its grid point, and comes before the
next one. An interval of zero takes every frame. -/
theorem sampling_keeps_to_grid {first : DecodedFrame ℚ π} {others : List (DecodedFrame ℚ π)}
    (hrising : (first :: others).Pairwise fun f g => f.time ≤ g.time)
    (hnonneg : 0 ≤ first.time) :
    (∀ s : ℚ, 1 / 1000000 < s →
      let cell := gridCell s first.time
      let samples := firstInCell s first.time (first :: others)
      Selects s (first :: others) samples ∧
      (∀ f ∈ first :: others, ∃! x, x ∈ samples ∧ cell x.time = cell f.time) ∧
      (samples.Pairwise fun x y => cell x.time < cell y.time) ∧
      ∀ x ∈ samples, ∀ k, cell x.time = k →
        first.time + k * s ≤ x.time + 1 / 1000000 ∧
        x.time + 1 / 1000000 < first.time + (k + 1) * s ∧
          ∀ f ∈ (first :: others).take x.number, f.time + 1 / 1000000 < first.time + k * s) ∧
    Selects 0 (first :: others) (numberedFrom 0 (first :: others)) := by
  have hall : TimesRise (first :: others) := timesRise_rat hrising <|
    List.forall_mem_cons.2
      ⟨hnonneg, fun f hf => hnonneg.trans (List.rel_of_pairwise_cons hrising hf)⟩
  refine ⟨fun s hs => ?_, ?_⟩
  · have hpos : 0 < s := lt_trans (by norm_num) hs
    refine ⟨?_, fun f hf => existsUnique_mem_firstInCell hpos hrising hf,
      pairwise_firstInCell hpos hrising,
      fun x hx k hk => grid_of_mem_firstInCell hpos hrising hx hk⟩
    rw [← (onGrid_advanceOver hs hrising).2]
    exact hall.selects s
  · have hevery : (unstarted 0).takesFrom (first :: others) =
      numberedFrom 0 (first :: others) :=
      takesFrom_of_interval_zero (Cadence.intervalOf_rat (le_refl 0))
    exact hevery ▸ hall.selects 0

/-- Two frames in the first cell, and two in one cell after a long gap. -/
theorem sampling_keeps_to_grid_after_gap :
    let first : DecodedFrame ℚ Unit := ⟨(), 0⟩
    let others : List (DecodedFrame ℚ Unit) := [⟨(), 1 / 2⟩, ⟨(), 51 / 5⟩, ⟨(), 107 / 10⟩]
    ((first :: others).Pairwise fun f g => f.time ≤ g.time) ∧ 0 ≤ first.time ∧
    (1 / 1000000 : ℚ) < 1 ∧
      (∃ samples, Selects 1 (first :: others) samples ∧ samples.map Frame.number = [0, 2]) ∧
      Selects 0 (first :: others) [⟨0, 0, ()⟩, ⟨1, 1 / 2, ()⟩, ⟨2, 51 / 5, ()⟩,
        ⟨3, 107 / 10, ()⟩] := by
  intro first others
  have hrising : (first :: others).Pairwise fun f g => f.time ≤ g.time := by decide +kernel
  have hinterval : (1 / 1000000 : ℚ) < 1 := by norm_num
  obtain ⟨hcells, hzero⟩ := sampling_keeps_to_grid hrising (le_refl (0 : ℚ))
  exact ⟨hrising, le_refl 0, hinterval, ⟨_, (hcells 1 hinterval).1, by decide +kernel⟩, hzero⟩

end Sampler

end VideoFingerprint
