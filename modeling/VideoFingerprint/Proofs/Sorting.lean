import Mathlib.Data.List.Nodup
import Mathlib.Data.List.Pairwise

/-!
Sorting. A sort keeps elements that it finds alike in the order in which they were, and
elements that are left in their order when others are taken away. By a key that no two elements
share there is only one sorted order, so what is sorted does not depend on the order of
arrival.
-/

namespace VideoFingerprint

/-- Of two members of an ordered list, one comes before the other. -/
theorem rel_or_rel_of_pairwise {α : Type} {R : α → α → Prop} {l : List α} (h : l.Pairwise R)
    {a b : α} (ha : a ∈ l) (hb : b ∈ l) (hne : a ≠ b) : R a b ∨ R b a := by
  have : Std.Symm fun a b => R a b ∨ R b a := ⟨fun _ _ => Or.symm⟩
  exact (h.imp (S := fun a b => R a b ∨ R b a) Or.inl).forall ha hb hne

/-- Sorting keeps the elements that are left in their order when others are taken away. -/
theorem mergeSort_sublist {α : Type} {le : α → α → Bool}
    (htrans : ∀ a b c, le a b = true → le b c = true → le a c = true)
    (htotal : ∀ a b, (le a b || le b a) = true) {l l' : List α} (h : l'.Sublist l) :
    (l'.mergeSort le).Sublist (l.mergeSort le) := by
  have hparts (a : α) (l : List α) :
      ∃ before after, (a :: l).mergeSort le = before ++ a :: after ∧
      l.mergeSort le = before ++ after ∧ (before ++ after).filter (fun b => !le a b) = before ∧
      (before ++ after).filter (le a) = after := by
    obtain ⟨before, after, hsorted, hrest, hbefore⟩ := List.mergeSort_cons htrans htotal a l
    have hafter : ∀ b ∈ after, le a b = true := by
      have hpairwise := List.pairwise_mergeSort htrans htotal (a :: l)
      rw [hsorted, List.pairwise_append, List.pairwise_cons] at hpairwise
      exact hpairwise.2.1.1
    refine ⟨before, after, hsorted, hrest, ?_, ?_⟩
    · rw [List.filter_append, List.filter_eq_self.2 hbefore, List.filter_eq_nil_iff.2,
        List.append_nil]
      intro b hb
      simp [hafter b hb]
    · rw [List.filter_append, List.filter_eq_self.2 hafter, List.filter_eq_nil_iff.2,
        List.nil_append]
      intro b hb
      simpa using hbefore b hb
  induction h with
  | slnil => exact List.Sublist.refl _
  | @cons l' l a _ ih =>
      obtain ⟨before, after, hsorted, hrest, -, -⟩ := hparts a l
      rw [hsorted]
      rw [hrest] at ih
      exact ih.trans ((List.Sublist.refl before).append (List.sublist_cons_self a after))
  | @cons_cons l' l a _ ih =>
      obtain ⟨before, after, hsorted, hrest, hbefore, hafter⟩ := hparts a l
      obtain ⟨before', after', hsorted', hrest', hbefore', hafter'⟩ := hparts a l'
      rw [hrest, hrest'] at ih
      have hfront := ih.filter fun b => !le a b
      have hback := ih.filter (le a)
      rw [hbefore, hbefore'] at hfront
      rw [hafter, hafter'] at hback
      rw [hsorted, hsorted']
      exact hfront.append (hback.cons_cons a)

/-! ### Keys -/

variable {α : Type} {key : α → Nat} {l l' : List α}

theorem pairwise_mergeSort_key (l : List α) :
    (l.mergeSort fun a b => key a ≤ key b).Pairwise fun a b => key a ≤ key b := by
  refine (List.pairwise_mergeSort (fun a b c => ?_) (fun a b => ?_) l).imp of_decide_eq_true
  · simp only [decide_eq_true_eq]
    exact Nat.le_trans
  · simp only [Bool.or_eq_true, decide_eq_true_eq]
    exact Nat.le_total (key a) (key b)

/-- Elements with rising keys come into their order, in whatever order they arrive. -/
theorem mergeSort_eq_of_perm (hperm : l'.Perm l)
    (hrising : l.Pairwise fun a b => key a < key b) :
    (l'.mergeSort fun a b => key a ≤ key b) = l := by
  have hsame : (l'.mergeSort fun a b => key a ≤ key b).Perm l :=
    (List.mergeSort_perm _ _).trans hperm
  have hnodup : (l.map key).Nodup := List.pairwise_map.2 (hrising.imp Nat.ne_of_lt)
  refine List.Perm.eq_of_pairwise (fun a b ha hb hab hba => ?_) (pairwise_mergeSort_key l')
    (hrising.imp Nat.le_of_lt) hsame
  exact List.inj_on_of_nodup_map hnodup (hsame.mem_iff.1 ha) hb (Nat.le_antisymm hab hba)

end VideoFingerprint
