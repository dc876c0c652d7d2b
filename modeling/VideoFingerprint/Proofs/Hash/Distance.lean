import Mathlib.Algebra.BigOperators.Group.Finset.Piecewise
import Mathlib.Algebra.Order.BigOperators.Group.Finset
import VideoFingerprint.Hash.Basic

/-!
The distance of two hashes as a number of places, and what it says about bands: a band on which
two hashes differ holds a place where they differ, so near hashes agree on most bands.
-/

namespace VideoFingerprint.Hash

def differing (a b : Hash) : Finset Nat :=
  (Finset.range size).filter fun k => a.value.getLsbD k ≠ b.value.getLsbD k

theorem mem_differing_iff {a b : Hash} {k : Nat} :
    k ∈ differing a b ↔ k < size ∧ a.value.getLsbD k ≠ b.value.getLsbD k := by
  rw [differing, Finset.mem_filter, Finset.mem_range]

/-! ### Counting -/

theorem countBits_eq_sum (width n : Nat) :
    countBits width n = ∑ j ∈ Finset.range width, (n.testBit j).toNat := by
  induction width generalizing n with
  | zero => rfl
  | succ width ih =>
      have hlow : n % 2 = (n.testBit 0).toNat := by
        rw [Nat.testBit_zero]
        rcases Nat.mod_two_eq_zero_or_one n with h | h <;> simp [h]
      rw [countBits, Finset.sum_range_succ', ih, hlow, Nat.add_comm]
      simp only [Nat.testBit_succ]

theorem foldl_countBits_eq_sum (v : BitVec 256) (chunks : Nat) :
    (List.range chunks).foldl
      (fun n i => n + countBits 32 (v.extractLsb' (32 * i) 32).toNat) 0 =
      ∑ k ∈ Finset.range (32 * chunks), (v.getLsbD k).toNat := by
  induction chunks with
  | zero => simp
  | succ chunks ih =>
      have hchunk : countBits 32 (v.extractLsb' (32 * chunks) 32).toNat =
          ∑ j ∈ Finset.range 32, (v.getLsbD (32 * chunks + j)).toNat := by
        rw [countBits_eq_sum]
        refine Finset.sum_congr rfl fun j hj => ?_
        rw [BitVec.testBit_toNat, BitVec.getLsbD_extractLsb']
        simp [Finset.mem_range.1 hj]
      rw [List.range_succ, List.foldl_append, ih, List.foldl_cons, List.foldl_nil, hchunk,
        Nat.mul_succ, Finset.sum_range_add]

theorem popCount_eq_sum (v : BitVec 256) :
    popCount v = ∑ k ∈ Finset.range size, (v.getLsbD k).toNat :=
  foldl_countBits_eq_sum v 8

/-- The distance of two hashes is the number of places where they differ. -/
theorem distance_eq_card (a b : Hash) : distance a b = (differing a b).card := by
  rw [distance, popCount_eq_sum, differing, Finset.card_filter]
  refine Finset.sum_congr rfl fun k _ => ?_
  rw [BitVec.getLsbD_xor]
  cases a.value.getLsbD k <;> cases b.value.getLsbD k <;> rfl

theorem distance_eq_zero_iff (a b : Hash) : distance a b = 0 ↔ a = b := by
  rw [distance_eq_card, Finset.card_eq_zero, Finset.eq_empty_iff_forall_notMem]
  constructor
  · intro hnone
    refine congrArg Hash.mk (BitVec.eq_of_getLsbD_eq fun k hk => ?_)
    by_contra hdiffer
    exact hnone k (mem_differing_iff.2 ⟨hk, hdiffer⟩)
  · rintro rfl k hk
    exact (mem_differing_iff.1 hk).2 rfl

/-! ### Bands -/

theorem band_eq_band_iff (a b : Hash) (start width : Nat) :
    a.band start width = b.band start width ↔
      ∀ j < width, a.value.getLsbD (start + j) = b.value.getLsbD (start + j) := by
  rw [band, band, BitVec.toNat_inj]
  constructor
  · intro h j hj
    have hbit := congrArg (fun v => v.getLsbD j) h
    simpa [BitVec.getLsbD_extractLsb', hj] using hbit
  · intro h
    refine BitVec.eq_of_getLsbD_eq fun j hj => ?_
    simp only [BitVec.getLsbD_extractLsb', hj, decide_true, Bool.true_and, h j hj]

/-- Two hashes differ on at most as many bands as there are places where they differ. -/
theorem card_bands_le_distance {bands width : Nat} (hsize : bands * width = size)
    (a b : Hash) :
    ((Finset.range bands).filter fun i => a.band (i * width) width ≠
      b.band (i * width) width).card ≤
      distance a b := by
  rw [distance_eq_card]
  refine le_trans (Finset.card_le_card fun i hi => ?_)
    (Finset.card_image_le (s := differing a b) (f := fun k => k / width))
  rw [Finset.mem_filter, Finset.mem_range, ne_eq, band_eq_band_iff] at hi
  obtain ⟨hlt, hdiffer⟩ := hi
  push Not at hdiffer
  obtain ⟨j, hj, hbit⟩ := hdiffer
  have hbound : i * width + j < size := by
    have : (i + 1) * width ≤ bands * width := Nat.mul_le_mul_right width hlt
    rw [Nat.succ_mul] at this
    omega
  refine Finset.mem_image.2 ⟨i * width + j, mem_differing_iff.2 ⟨hbound, hbit⟩, ?_⟩
  rw [Nat.mul_comm, Nat.mul_add_div (by omega), Nat.div_eq_of_lt hj, Nat.add_zero]

/-- Hashes at a distance below the number of bands agree on a whole band. -/
theorem exists_band_eq_of_distance_lt {bands width : Nat} (hsize : bands * width = size)
    {a b : Hash} (h : distance a b < bands) :
    ∃ i < bands, a.band (i * width) width = b.band (i * width) width := by
  by_contra hall
  push Not at hall
  have hevery : (Finset.range bands).filter
      (fun i => a.band (i * width) width ≠ b.band (i * width) width) = Finset.range bands :=
    Finset.filter_true_of_mem fun i hi => hall i (Finset.mem_range.1 hi)
  have hcount := card_bands_le_distance hsize a b
  rw [hevery, Finset.card_range] at hcount
  omega

end VideoFingerprint.Hash
