import Mathlib.Data.List.Pairwise
import Mathlib.Order.Lattice
import VideoFingerprint.Number.Scalar

/-!
The median of an even number of values. It is the mean of the two middle order statistics,
which are told by counting and not by sorting: so many values are below, and so many are not
above. Sorting tells zeros of different signs apart and comparing does not, so values are
looked at through the linear order that comparing is in.
-/

namespace VideoFingerprint.Scalar

variable {α : Type} [Scalar α] {β : Type} [LinearOrder β] {key : α → β} {values : List α}
  {k : Nat} {x y m : α}

/-- Finite numbers are compared by their keys, and sorting puts their keys in order. -/
structure OrderedBy (key : α → β) : Prop where
  le_iff : ∀ {x y : α}, isFinite x = true → isFinite y = true → (le x y = true ↔ key x ≤ key y)
  lt_iff : ∀ {x y : α}, isFinite x = true → isFinite y = true → (lt x y = true ↔ key x < key y)
  key_le : ∀ {x y : α}, isFinite x = true → isFinite y = true → sortsBefore x y = true →
    key x ≤ key y
  trans : ∀ x y z : α, sortsBefore x y = true → sortsBefore y z = true → sortsBefore x z = true
  total : ∀ x y : α, (sortsBefore x y || sortsBefore y x) = true

/-- The value that has number `k`, from zero on, when the values are put in rising order: at
most `k` of them are below it, and more than `k` are not above it. -/
structure IsOrderStatistic (values : List α) (k : Nat) (x : α) : Prop where
  mem : x ∈ values
  below : values.countP (fun v => lt v x) ≤ k
  notAbove : k < values.countP (fun v => le v x)

namespace OrderedBy

variable (ho : OrderedBy key) (hfinite : ∀ v ∈ values, isFinite v = true)

include ho hfinite

theorem pairwise_mergeSort :
    (values.mergeSort sortsBefore).Pairwise fun x y => key x ≤ key y := by
  refine (List.pairwise_mergeSort ho.trans ho.total values).imp_of_mem fun {x y} hx hy hxy =>
    ?_
  exact ho.key_le (hfinite x (List.mem_mergeSort.1 hx))
    (hfinite y (List.mem_mergeSort.1 hy)) hxy

/-- The values in sorted order are the order statistics. -/
theorem isOrderStatistic_mergeSort (hx : (values.mergeSort sortsBefore)[k]? = some x) :
    IsOrderStatistic values k x := by
  obtain ⟨hk, hget⟩ := List.getElem?_eq_some_iff.1 hx
  have hsplit : values.mergeSort sortsBefore =
      (values.mergeSort sortsBefore).take k ++ x ::
        (values.mergeSort sortsBefore).drop (k + 1) := by
    rw [← hget, List.getElem_cons_drop, List.take_append_drop]
  have hlength : ((values.mergeSort sortsBefore).take k).length = k :=
    List.length_take_of_le (Nat.le_of_lt hk)
  have hsorted := ho.pairwise_mergeSort hfinite
  have hperm := List.mergeSort_perm values sortsBefore
  generalize (values.mergeSort sortsBefore).take k = before at hsplit hlength
  generalize (values.mergeSort sortsBefore).drop (k + 1) = after at hsplit
  rw [hsplit] at hsorted hperm
  rw [List.pairwise_append, List.pairwise_cons] at hsorted
  obtain ⟨-, ⟨hafter, -⟩, hacross⟩ := hsorted
  have hmem {v : α} (hv : v ∈ before ++ x :: after) : isFinite v = true :=
    hfinite v (hperm.mem_iff.1 hv)
  have hself : x ∈ before ++ x :: after := List.mem_append_right _ List.mem_cons_self
  refine ⟨hperm.mem_iff.1 hself, ?_, ?_⟩
  · have hnone : (x :: after).countP (fun v => lt v x) = 0 := by
      refine List.countP_eq_zero.2 fun v hv => ?_
      rw [ho.lt_iff (hmem (List.mem_append_right _ hv)) (hmem hself), not_lt]
      rcases List.mem_cons.1 hv with rfl | hv
      · exact le_rfl
      · exact hafter v hv
    rw [← hperm.countP_eq, List.countP_append, hnone, Nat.add_zero, ← hlength]
    exact List.countP_le_length
  · have hall : before.countP (fun v => le v x) = before.length := by
      refine List.countP_eq_length.2 fun v hv => ?_
      exact (ho.le_iff (hmem (List.mem_append_left _ hv)) (hmem hself)).2
        (hacross v hv x List.mem_cons_self)
    have hone : 0 < (x :: after).countP (fun v => le v x) :=
      List.countP_pos_iff.2 ⟨x, List.mem_cons_self,
        (ho.le_iff (hmem hself) (hmem hself)).2 le_rfl⟩
    rw [← hperm.countP_eq, List.countP_append, hall, hlength]
    exact Nat.lt_add_of_pos_right hone

theorem key_le_key {j : Nat} (hx : IsOrderStatistic values k x)
    (hy : IsOrderStatistic values j y) (hkj : k ≤ j) :
    key x ≤ key y := by
  by_contra hlt
  rw [not_le] at hlt
  have hmono : values.countP (fun v => le v y) ≤ values.countP (fun v => lt v x) := by
    refine List.countP_mono_left fun v hv hvy => ?_
    rw [ho.le_iff (hfinite v hv) (hfinite y hy.mem)] at hvy
    exact (ho.lt_iff (hfinite v hv) (hfinite x hx.mem)).2 (hvy.trans_lt hlt)
  have := hx.below
  have := hy.notAbove
  omega

/-- There is one order statistic for each number, up to numbers that compare alike. -/
theorem key_eq (hx : IsOrderStatistic values k x) (hy : IsOrderStatistic values k y) :
    key x = key y :=
  le_antisymm (ho.key_le_key hfinite hx hy (Nat.le_refl k))
    (ho.key_le_key hfinite hy hx (Nat.le_refl k))

/-! ### Counting from a threshold on -/

theorem length_le_countP_add (hx : IsOrderStatistic values k x) (hm : isFinite m = true)
    (h : key m ≤ key x) :
    values.length ≤ values.countP (fun v => le m v) + k := by
  have hmono : values.countP (fun v => !lt v x) ≤ values.countP (fun v => le m v) := by
    refine List.countP_mono_left fun v hv hvx => ?_
    rw [Bool.not_eq_true', ← Bool.not_eq_true, ho.lt_iff (hfinite v hv) (hfinite x hx.mem),
      not_lt] at hvx
    exact (ho.le_iff hm (hfinite v hv)).2 (h.trans hvx)
  have hsplit := List.length_eq_countP_add_countP (fun v => lt v x) (l := values)
  have := hx.below
  simp only [Bool.not_eq_true, Bool.decide_eq_false] at hsplit
  omega

theorem countP_add_lt_length (hx : IsOrderStatistic values k x) (hm : isFinite m = true)
    (h : key x < key m) :
    values.countP (fun v => le m v) + k < values.length := by
  have hmono : values.countP (fun v => le m v) ≤ values.countP (fun v => !le v x) := by
    refine List.countP_mono_left fun v hv hmv => ?_
    rw [ho.le_iff hm (hfinite v hv)] at hmv
    rw [Bool.not_eq_true', ← Bool.not_eq_true, ho.le_iff (hfinite v hv) (hfinite x hx.mem),
      not_le]
    exact h.trans_le hmv
  have hsplit := List.length_eq_countP_add_countP (fun v => le v x) (l := values)
  have := hx.notAbove
  simp only [Bool.not_eq_true, Bool.decide_eq_false] at hsplit
  omega

/-! ### The median -/

/-- The median of an even number of values is the mean of the two middle ones. -/
theorem exists_median_eq {half : Nat} (hlength : values.length = 2 * half) (hpos : 0 < half) :
    ∃ low high, IsOrderStatistic values (half - 1) low ∧ IsOrderStatistic values half high ∧
      median values = (low + high) / ofNat 2 := by
  have hlength' : (values.mergeSort sortsBefore).length = 2 * half :=
    (List.length_mergeSort values).trans hlength
  have hlow :=
    List.getElem?_eq_getElem (l := values.mergeSort sortsBefore) (i := half - 1) (by omega)
  have hhigh :=
    List.getElem?_eq_getElem (l := values.mergeSort sortsBefore) (i := half) (by omega)
  refine ⟨_, _, ho.isOrderStatistic_mergeSort hfinite hlow,
    ho.isOrderStatistic_mergeSort hfinite hhigh, ?_⟩
  have hmid : 2 * half / 2 = half := Nat.mul_div_cancel_left half Nat.two_pos
  simp only [median, middle, hlength', hmid, hhigh, Nat.mul_mod_right, if_true,
    List.getD_eq_getElem?_getD, hlow, Option.getD_some]

end OrderedBy

end VideoFingerprint.Scalar
