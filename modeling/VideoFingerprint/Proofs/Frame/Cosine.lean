import Mathlib.Data.Nat.Init
import Mathlib.Tactic.Ring
import VideoFingerprint.Frame.Cosine
import VideoFingerprint.Proofs.Frame.Lines
import VideoFingerprint.Proofs.Number.Real

/-!
The cosine transform of rows as a linear map. In exact arithmetic the transform of a row whose
length is a power of two goes along with sums and multiples, and a row without change keeps
only its first value. Nothing else is used of the cosines and sines in it, so both facts hold
for any table of angles.
-/

namespace VideoFingerprint

variable {n : ℕ}

/-- A transform of rows that is linear and takes a row without change to one that is zero but
for its first value. -/
structure IsCosineLike (transformRow : Vector ℝ n → Vector ℝ n) : Prop where
  linear : ∀ (a b : ℝ) x y, transformRow (Vector.ofFn fun i => a * x.get i + b * y.get i) =
    Vector.ofFn fun k => a * (transformRow x).get k + b * (transformRow y).get k
  flat : ∀ (c : ℝ) (k : Fin n), 0 < k.val → (transformRow (Vector.replicate n c)).get k = 0

namespace Cosine

variable {k : ℕ}

/-! ### The parts of a split row -/

section Parts

variable {α : Type} [Scalar α] (x : Vector α (Nat.pow 2 (k + 2))) (angles : Angles α)

theorem opposite_lt (i : Fin (Nat.pow 2 (k + 1))) :
    4 * Nat.pow 2 k - 1 - i.val < Nat.pow 2 (k + 2) := by
  have hn : Nat.pow 2 (k + 2) = 4 * Nat.pow 2 k := two_pow_add_two k
  have hpos : 0 < Nat.pow 2 k := Nat.two_pow_pos k
  omega

theorem lt_two_pow_add_two (i : Fin (Nat.pow 2 (k + 1))) : i.val < Nat.pow 2 (k + 2) :=
  i.isLt.trans (Nat.pow_lt_pow_succ Nat.one_lt_two)

/-- The sums of opposite values of a row. -/
def oppositeSums : Vector α (Nat.pow 2 (k + 1)) :=
  Vector.ofFn fun i =>
    getElem x (4 * Nat.pow 2 k - 1 - i.val) (opposite_lt i) +
      getElem x i.val (lt_two_pow_add_two i)

def outerDifference (i : Fin (Nat.pow 2 k)) : α :=
  have hn : Nat.pow 2 (k + 2) = 4 * Nat.pow 2 k := two_pow_add_two k
  x[i.val] - x[4 * Nat.pow 2 k - 1 - i.val]

def innerDifference (i : Fin (Nat.pow 2 k)) : α :=
  have hn : Nat.pow 2 (k + 2) = 4 * Nat.pow 2 k := two_pow_add_two k
  x[2 * Nat.pow 2 k - 1 - i.val] - x[2 * Nat.pow 2 k + i.val]

def turnedDifferences : Vector α (Nat.pow 2 k) :=
  Vector.ofFn fun i => outerDifference x i * angles.cos (2 * i.val + 1) (16 * Nat.pow 2 k)
    + innerDifference x i * angles.sin (2 * i.val + 1) (16 * Nat.pow 2 k)

def crossedDifferences : Vector α (Nat.pow 2 k) :=
  Vector.ofFn fun j =>
    let i := j.rev
    let v := innerDifference x i * angles.cos (2 * i.val + 1) (16 * Nat.pow 2 k)
      - outerDifference x i * angles.sin (2 * i.val + 1) (16 * Nat.pow 2 k)
    if i.val % 2 = 0 then v else -v

variable {i : ℕ}

/-- The even frequencies of a row are those of the sums of its opposite values. -/
theorem getElem_split_even (hi : i < Nat.pow 2 (k + 1)) (hm : 2 * i < Nat.pow 2 (k + 2)) :
    (split angles (k + 2) x)[2 * i] = (split angles (k + 1) (oppositeSums x))[i] := by
  simp only [split, Vector.getElem_ofFn, Nat.mul_mod_right,
    Nat.mul_div_cancel_left i Nat.two_pos, dite_true]
  rfl

/-- The first odd frequency is the first one of the turned differences. -/
theorem getElem_split_one (hm : 1 < Nat.pow 2 (k + 2)) (hzero : 0 < Nat.pow 2 k) :
    (split angles (k + 2) x)[1] = (split angles k (turnedDifferences x angles))[0] := by
  simp only [split, Vector.getElem_ofFn, Nat.one_mod, Nat.one_ne_zero, dite_true, dite_false]
  rfl

/-- The last frequency is the first one of the crossed differences, turned around. -/
theorem getElem_split_last (hm : 4 * Nat.pow 2 k - 1 < Nat.pow 2 (k + 2))
    (hzero : 0 < Nat.pow 2 k) :
    (split angles (k + 2) x)[4 * Nat.pow 2 k - 1] =
      -(split angles k (crossedDifferences x angles))[0] := by
  have hodd : ¬ (4 * Nat.pow 2 k - 1) % 2 = 0 := by omega
  have hnotOne : ¬ 4 * Nat.pow 2 k - 1 = 1 := by omega
  simp only [split, Vector.getElem_ofFn, hodd, hnotOne, dite_true, dite_false]
  rfl

/-- Between these, each turned difference goes with a crossed one into two neighbouring
odd frequencies. -/
theorem getElem_split_before (hi : i < Nat.pow 2 k) (hj : Nat.pow 2 k - i < Nat.pow 2 k)
    (hm : 4 * i - 1 < Nat.pow 2 (k + 2)) :
    (split angles (k + 2) x)[4 * i - 1] = (split angles k (turnedDifferences x angles))[i] +
      if (i + Nat.pow 2 k) % 2 = 0 then
        -(split angles k (crossedDifferences x angles))[Nat.pow 2 k - i]
      else (split angles k (crossedDifferences x angles))[Nat.pow 2 k - i] := by
  have hodd : ¬ (4 * i - 1) % 2 = 0 := by omega
  have hnotOne : ¬ 4 * i - 1 = 1 := by omega
  have hnotLast : ¬ 4 * i - 1 = 4 * Nat.pow 2 k - 1 := by omega
  have hthree : (4 * i - 1) % 4 = 3 := by omega
  have hquarter : (4 * i - 1 + 1) / 4 = i := by omega
  simp only [split, Vector.getElem_ofFn, hodd, hnotOne, hnotLast, hthree, hquarter, dite_true,
    dite_false]
  rfl

theorem getElem_split_after (hi : i < Nat.pow 2 k) (hj : Nat.pow 2 k - i < Nat.pow 2 k)
    (hm : 4 * i + 1 < Nat.pow 2 (k + 2)) :
    (split angles (k + 2) x)[4 * i + 1] = (split angles k (turnedDifferences x angles))[i] -
      if (i + Nat.pow 2 k) % 2 = 0 then
        -(split angles k (crossedDifferences x angles))[Nat.pow 2 k - i]
      else (split angles k (crossedDifferences x angles))[Nat.pow 2 k - i] := by
  have hodd : ¬ (4 * i + 1) % 2 = 0 := by omega
  have hnotOne : ¬ 4 * i + 1 = 1 := by omega
  have hnotLast : ¬ 4 * i + 1 = 4 * Nat.pow 2 k - 1 := by omega
  have hnotThree : ¬ (4 * i + 1) % 4 = 3 := by omega
  have hquarter : (4 * i + 1) / 4 = i := by omega
  simp only [split, Vector.getElem_ofFn, hodd, hnotOne, hnotLast, hnotThree, hquarter,
    dite_false]
  rfl

/-- Which of these a place is. -/
theorem split_cases {q m : ℕ} (hm : m < 4 * q) :
    (∃ i < 2 * q, m = 2 * i) ∨ m = 1 ∨ m = 4 * q - 1 ∨
      ∃ i, i < q ∧ q - i < q ∧ (m = 4 * i - 1 ∨ m = 4 * i + 1) := by
  by_cases heven : m % 2 = 0
  · exact .inl ⟨m / 2, by omega, by omega⟩
  by_cases hends : m = 1 ∨ m = 4 * q - 1
  · exact .inr (hends.imp_right .inl)
  · exact .inr (.inr (.inr ⟨(m + 1) / 4, by omega, by omega, by omega⟩))

end Parts

/-! ### Linearity -/

/-- Each value of a row is the same combination of the values of two others. -/
def Combines (a b : ℝ) (x y z : Vector ℝ n) : Prop :=
  ∀ i (h : i < n), z[i] = a * x[i] + b * y[i]

/-- A combination of rows is transformed to the combination of their transforms, since each
part of the split row is linear in the row. -/
theorem combines_split (angles : Angles ℝ) (a b : ℝ) {x y z : Vector ℝ (Nat.pow 2 k)}
    (h : Combines a b x y z) :
    Combines a b (split angles k x) (split angles k y) (split angles k z) := by
  induction k using Nat.twoStepInduction with
  | zero => exact h
  | one =>
      have hfirst : z[0] = a * x[0] + b * y[0] := h 0 (by decide)
      have hsecond : z[1] = a * x[1] + b * y[1] := h 1 (by decide)
      intro i hi
      obtain rfl | rfl : i = 0 ∨ i = 1 := by
        have : i < 2 := hi
        omega
      · show z[0] + z[1] = a * (x[0] + x[1]) + b * (y[0] + y[1])
        rw [hfirst, hsecond]
        ring
      · show (z[0] - z[1]) * _ = a * ((x[0] - x[1]) * _) + b * ((y[0] - y[1]) * _)
        rw [hfirst, hsecond]
        ring
  | more k ih ih' =>
      have houter (i : Fin (Nat.pow 2 k)) :
          outerDifference z i = a * outerDifference x i + b * outerDifference y i := by
        simp only [outerDifference]
        rw [h, h]
        ring
      have hinner (i : Fin (Nat.pow 2 k)) :
          innerDifference z i = a * innerDifference x i + b * innerDifference y i := by
        simp only [innerDifference]
        rw [h, h]
        ring
      have hsums : Combines a b (oppositeSums x) (oppositeSums y) (oppositeSums z) := by
        intro i hi
        simp only [oppositeSums, Vector.getElem_ofFn]
        rw [h, h]
        ring
      have hturned : Combines a b (turnedDifferences x angles) (turnedDifferences y angles)
          (turnedDifferences z angles) := by
        intro i hi
        simp only [turnedDifferences, Vector.getElem_ofFn, houter, hinner]
        ring
      have hcrossed : Combines a b (crossedDifferences x angles) (crossedDifferences y angles)
          (crossedDifferences z angles) := by
        intro i hi
        simp only [crossedDifferences, Vector.getElem_ofFn, houter, hinner]
        split <;> ring
      have hsums' := ih' hsums
      have hturned' := ih hturned
      have hcrossed' := ih hcrossed
      intro m hm
      have hn : Nat.pow 2 (k + 2) = 4 * Nat.pow 2 k := two_pow_add_two k
      have hh : Nat.pow 2 (k + 1) = 2 * Nat.pow 2 k := Nat.mul_comm (Nat.pow 2 k) 2
      obtain ⟨i, hi, rfl⟩ | rfl | rfl | ⟨i, hi, hj, rfl | rfl⟩ := split_cases (hm.trans_eq hn)
      · simp only [getElem_split_even _ angles (hi.trans_eq hh.symm) hm,
          hsums' i (hi.trans_eq hh.symm)]
      · simp only [getElem_split_one _ angles hm (Nat.two_pow_pos k),
          hturned' 0 (Nat.two_pow_pos k)]
      · simp only [getElem_split_last _ angles hm (Nat.two_pow_pos k),
          hcrossed' 0 (Nat.two_pow_pos k)]
        ring
      · simp only [getElem_split_before _ angles hi hj hm, hturned' i hi, hcrossed' _ hj]
        split <;> ring
      · simp only [getElem_split_after _ angles hi hj hm, hturned' i hi, hcrossed' _ hj]
        split <;> ring

/-! ### Rows without change -/

theorem split_eq_zero (angles : Angles ℝ) {x : Vector ℝ (Nat.pow 2 k)}
    (h : ∀ i (h : i < Nat.pow 2 k), x[i] = 0) (m : ℕ) (hm : m < Nat.pow 2 k) :
    (split angles k x)[m] = 0 := by
  have hcombines : Combines 0 0 x x x := fun i hi => by rw [h i hi]; ring
  have hzero := combines_split angles 0 0 hcombines m hm
  simpa using hzero

/-- Opposite values of a row without change leave no difference, and their sums are a shorter
row without change. -/
theorem split_eq_zero_of_flat (angles : Angles ℝ) {x : Vector ℝ (Nat.pow 2 k)} {c : ℝ}
    (h : ∀ i (h : i < Nat.pow 2 k), x[i] = c) (m : ℕ) (hm : m < Nat.pow 2 k) (hpos : 0 < m) :
    (split angles k x)[m] = 0 := by
  induction k using Nat.twoStepInduction generalizing c m with
  | zero =>
      have : m < 1 := hm
      omega
  | one =>
      obtain rfl : m = 1 := by
        have : m < 2 := hm
        omega
      show (x[0] - x[1]) * _ = 0
      rw [h, h, sub_self, zero_mul]
  | more k ih ih' =>
      have houter (i : Fin (Nat.pow 2 k)) : outerDifference x i = 0 := by
        simp only [outerDifference]
        rw [h, h, sub_self]
      have hinner (i : Fin (Nat.pow 2 k)) : innerDifference x i = 0 := by
        simp only [innerDifference]
        rw [h, h, sub_self]
      have hsums (i : ℕ) (hi : i < Nat.pow 2 (k + 1)) : (oppositeSums x)[i] = c + c := by
        simp only [oppositeSums, Vector.getElem_ofFn]
        rw [h, h]
      have hturned := split_eq_zero angles (x := turnedDifferences x angles) fun i hi => by
        simp [turnedDifferences, houter, hinner]
      have hcrossed := split_eq_zero angles (x := crossedDifferences x angles) fun i hi => by
        simp [crossedDifferences, houter, hinner]
      have hn : Nat.pow 2 (k + 2) = 4 * Nat.pow 2 k := two_pow_add_two k
      have hh : Nat.pow 2 (k + 1) = 2 * Nat.pow 2 k := Nat.mul_comm (Nat.pow 2 k) 2
      obtain ⟨i, hi, rfl⟩ | rfl | rfl | ⟨i, hi, hj, rfl | rfl⟩ := split_cases (hm.trans_eq hn)
      · rw [getElem_split_even x angles (hi.trans_eq hh.symm) hm]
        exact ih' hsums i _ (Nat.pos_of_mul_pos_left hpos)
      · rw [getElem_split_one x angles hm (Nat.two_pow_pos k), hturned]
      · rw [getElem_split_last x angles hm (Nat.two_pow_pos k), hcrossed, neg_zero]
      · simp only [getElem_split_before x angles hi hj hm, hturned, hcrossed, neg_zero,
          ite_self, add_zero]
      · simp only [getElem_split_after x angles hi hj hm, hturned, hcrossed, neg_zero,
          ite_self, sub_zero]

/-! ### Falling rows -/

/-- The first value of a transformed row is positive if all values of the row are. -/
theorem split_zero_pos (angles : Angles ℝ) {x : Vector ℝ (Nat.pow 2 k)}
    (h : ∀ i (hi : i < Nat.pow 2 k), 0 < x[i]) (hzero : 0 < Nat.pow 2 k) :
    (0 : ℝ) < (split angles k x)[0] := by
  induction k using Nat.twoStepInduction with
  | zero => exact h 0 hzero
  | one => exact add_pos (h 0 Nat.two_pos) (h 1 Nat.one_lt_two)
  | more k _ ih =>
      have hsums (i : ℕ) (hi : i < Nat.pow 2 (k + 1)) : 0 < (oppositeSums x)[i] := by
        simp only [oppositeSums, Vector.getElem_ofFn]
        exact add_pos (h _ _) (h _ _)
      have hshorter : 0 < Nat.pow 2 (k + 1) := Nat.two_pow_pos (k + 1)
      have heven := getElem_split_even x angles hshorter hzero
      simp only [Nat.mul_zero] at heven
      rw [heven]
      exact ih hsums hshorter

/-- A falling row has a positive value at the first frequency, as long as the angles are in the
first quarter. -/
theorem split_one_pos {angles : Angles ℝ} {x : Vector ℝ (Nat.pow 2 (k + 2))}
    (hfalling : ∀ i j (hij : i < j) (hj : j < Nat.pow 2 (k + 2)), x[j] < x[i])
    (hcos : ∀ i < Nat.pow 2 k, 0 < angles.cos (2 * i + 1) (16 * Nat.pow 2 k))
    (hsin : ∀ i < Nat.pow 2 k, 0 < angles.sin (2 * i + 1) (16 * Nat.pow 2 k))
    (hone : 1 < Nat.pow 2 (k + 2)) : (0 : ℝ) < (split angles (k + 2) x)[1] := by
  have hn : Nat.pow 2 (k + 2) = 4 * Nat.pow 2 k := two_pow_add_two k
  have houter (i : Fin (Nat.pow 2 k)) : 0 < outerDifference x i :=
    sub_pos.2 (hfalling _ _ (by omega) (by omega))
  have hinner (i : Fin (Nat.pow 2 k)) : 0 < innerDifference x i :=
    sub_pos.2 (hfalling _ _ (by omega) (by omega))
  rw [getElem_split_one x angles hone (Nat.two_pow_pos k)]
  refine split_zero_pos angles (fun i hi => ?_) _
  simp only [turnedDifferences, Vector.getElem_ofFn]
  exact add_pos (mul_pos (houter _) (hcos i hi)) (mul_pos (hinner _) (hsin i hi))

/-- Where opposite values have one sum throughout, only the odd frequencies and the
first one are left. -/
theorem split_even_eq_zero (angles : Angles ℝ) {x : Vector ℝ (Nat.pow 2 (k + 2))} {c : ℝ}
    (hopposite : ∀ i (hi : i < Nat.pow 2 (k + 1)), (oppositeSums x)[i] = c) {i : ℕ}
    (hi : i < Nat.pow 2 (k + 1)) (hm : 2 * i < Nat.pow 2 (k + 2)) (hpos : 0 < i) :
    (split angles (k + 2) x)[2 * i] = 0 := by
  rw [getElem_split_even x angles hi hm]
  exact split_eq_zero_of_flat angles hopposite i hi hpos

/-! ### Rows of a power of two -/

theorem row_eq_split {α : Type} [Scalar α] (angles : Angles α) (hk : 0 < k)
    (x : Vector α (Nat.pow 2 k)) : row angles x = split angles k x := by
  have hlog : (Nat.pow 2 k).log2 = k := Nat.log2_two_pow
  have heven : Nat.pow 2 k = 2 * Nat.pow 2 (k - 1) := by
    obtain ⟨k, rfl⟩ := Nat.exists_eq_succ_of_ne_zero hk.ne'
    exact Nat.mul_comm (Nat.pow 2 k) 2
  have hpos : 0 < Nat.pow 2 (k - 1) := Nat.two_pow_pos _
  have hsplit (j : ℕ) (hj : j = k) (h : Nat.pow 2 k = Nat.pow 2 j) :
      (split angles j (x.cast h)).cast h.symm = split angles k x := by
    subst hj
    rfl
  rw [row, dif_neg (by omega), dif_pos ⟨by omega, by rw [hlog]⟩]
  exact hsplit _ hlog _

/-- The cosine transform is linear and keeps only the first value of a row without change. -/
theorem isCosineLike_row (angles : Angles ℝ) (hk : 0 < k) :
    IsCosineLike (row angles : Vector ℝ (Nat.pow 2 k) → Vector ℝ (Nat.pow 2 k)) where
  linear a b x y := by
    refine ext_get fun m => ?_
    rw [get_ofFn, row_eq_split angles hk, row_eq_split angles hk, row_eq_split angles hk]
    refine combines_split angles a b (fun i hi => ?_) m m.isLt
    rw [Vector.getElem_ofFn]
    rfl
  flat c m hm := by
    rw [row_eq_split angles hk]
    exact split_eq_zero_of_flat angles (fun i hi => Vector.getElem_replicate hi) m m.isLt hm

end Cosine

end VideoFingerprint
