import Mathlib.Data.List.Pairwise
import Mathlib.Data.List.Sort
import Mathlib.Data.List.TakeWhile
import Mathlib.Tactic.Tauto
import VideoFingerprint.Matching.Chain

/-!
Chains as sets of pairs. A chain that starts empty and only takes pairs that fit rises on both
sides, and its marks are exactly the used places of the reference. For such a chain the test
that looks at the two neighbours of a pair says whether the pair conflicts with any pair of the
chain.
-/

namespace VideoFingerprint

/-- Two pairs of places cannot both be matched: they share a frame or cross. -/
def Conflict (a b : Nat × Nat) : Prop :=
  a.1 = b.1 ∨ a.2 = b.2 ∨ (a.1 < b.1 ∧ b.2 < a.2) ∨ (b.1 < a.1 ∧ a.2 < b.2)

instance (a b : Nat × Nat) : Decidable (Conflict a b) :=
  inferInstanceAs (Decidable (_ ∨ _ ∨ _ ∨ _))

theorem Conflict.symm {a b : Nat × Nat} (h : Conflict a b) : Conflict b a := by
  unfold Conflict at h ⊢
  omega

theorem conflict_swap_iff (a b : Nat × Nat) : Conflict a.swap b.swap ↔ Conflict a b := by
  simp only [Conflict, Prod.fst_swap, Prod.snd_swap]
  omega

/-- Pairs without a conflict come one after the other on both sides. -/
theorem not_conflict_iff (a b : Nat × Nat) :
    ¬ Conflict a b ↔ (a.1 < b.1 ∧ a.2 < b.2) ∨ (b.1 < a.1 ∧ b.2 < a.2) := by
  unfold Conflict
  omega

namespace Chain

/-- The pairs rise on both sides, and exactly their places of the reference are
marked as used. -/
structure WellFormed (referenceCount : Nat) (c : Chain) : Prop where
  rising : c.links.Pairwise fun a b => a.1 < b.1 ∧ a.2 < b.2
  used_iff : ∀ q, c.used.getD q false = true ↔ ∃ p, (p, q) ∈ c.links
  size_used : c.used.size = referenceCount

theorem wellFormed_empty (n : Nat) : (empty n).WellFormed n where
  rising := List.Pairwise.nil
  used_iff q := by simp [empty, Array.getD, Array.getElem_replicate]
  size_used := Array.size_replicate

variable {n p q : Nat} {c : Chain}

theorem before_append_onward (c : Chain) (p : Nat) : c.before p ++ c.onward p = c.links :=
  List.takeWhile_append_dropWhile

theorem le_of_mem_dropWhile {links : List (Nat × Nat)}
    (h : links.Pairwise fun a b => a.1 < b.1) {l : Nat × Nat}
    (hl : l ∈ links.dropWhile fun link => link.1 < p) : p ≤ l.1 := by
  induction links with
  | nil => simp at hl
  | cons a as ih =>
      rw [List.pairwise_cons] at h
      rw [List.dropWhile_cons] at hl
      split at hl
      · exact ih h.2 hl
      · rename_i ha
        have hpa : p ≤ a.1 := by simpa using ha
        rcases List.mem_cons.1 hl with rfl | hmem
        · exact hpa
        · exact hpa.trans (h.1 l hmem).le

theorem lt_of_mem_before {l : Nat × Nat} (hl : l ∈ c.before p) : l.1 < p := by
  simpa using List.mem_takeWhile_imp hl

theorem WellFormed.le_of_mem_onward (h : c.WellFormed n) {l : Nat × Nat}
    (hl : l ∈ c.onward p) :
    p ≤ l.1 :=
  le_of_mem_dropWhile (h.rising.imp fun hab => hab.1) hl

theorem mem_links_iff {l : Nat × Nat} : l ∈ c.links ↔ l ∈ c.before p ∨ l ∈ c.onward p := by
  rw [← before_append_onward c p, List.mem_append]

theorem WellFormed.rising_before (h : c.WellFormed n) (p : Nat) :
    (c.before p).Pairwise fun a b => a.1 < b.1 ∧ a.2 < b.2 :=
  h.rising.sublist (List.takeWhile_sublist _)

theorem WellFormed.rising_onward (h : c.WellFormed n) (p : Nat) :
    (c.onward p).Pairwise fun a b => a.1 < b.1 ∧ a.2 < b.2 :=
  h.rising.sublist (List.dropWhile_sublist _)

theorem WellFormed.not_conflict (h : c.WellFormed n) {l l' : Nat × Nat} (hl : l ∈ c.links)
    (hl' : l' ∈ c.links) (hne : l ≠ l') : ¬ Conflict l l' := by
  have hapart : c.links.Pairwise fun a b => ¬ Conflict a b :=
    h.rising.imp fun hab => (not_conflict_iff _ _).2 (Or.inl hab)
  have : Std.Symm fun a b : Nat × Nat => ¬ Conflict a b := ⟨fun _ _ hab hba => hab hba.symm⟩
  exact hapart.forall hl hl' hne

theorem snd_lt_iff_of_getLast? {links : List (Nat × Nat)}
    (h : links.Pairwise fun a b => a.1 < b.1 ∧ a.2 < b.2) (q : Nat) :
    links.getLast?.all (fun link => link.2 < q) = true ↔ ∀ l ∈ links, l.2 < q := by
  rcases List.eq_nil_or_concat links with rfl | ⟨init, last, rfl⟩
  · simp
  · have hinit : ∀ l ∈ init, l.2 < last.2 := by
      rw [List.concat_eq_append, List.pairwise_append] at h
      exact fun l hl => (h.2.2 l hl last (List.mem_singleton_self last)).2
    simp only [List.concat_eq_append, List.getLast?_append, List.getLast?_singleton,
      Option.some_or, Option.all_some, decide_eq_true_eq, List.mem_append, List.mem_singleton]
    constructor
    · rintro hlast l (hl | rfl)
      · exact (hinit l hl).trans hlast
      · exact hlast
    · exact fun hall => hall last (Or.inr rfl)

theorem lt_snd_iff_of_head? {links : List (Nat × Nat)}
    (h : links.Pairwise fun a b => a.1 < b.1 ∧ a.2 < b.2) (q : Nat) :
    links.head?.all (fun link => q < link.2) = true ↔ ∀ l ∈ links, q < l.2 := by
  cases links with
  | nil => simp
  | cons a as =>
      have htail := (List.pairwise_cons.1 h).1
      simp only [List.head?_cons, Option.all_some, decide_eq_true_eq, List.mem_cons,
        forall_eq_or_imp]
      exact ⟨fun ha => ⟨ha, fun l hl => ha.trans (htail l hl).2⟩, And.left⟩

/-- From a place on, the first pair tells whether the place is taken. -/
theorem WellFormed.taken_iff (h : c.WellFormed n) (p : Nat) :
    (c.onward p).head?.any (fun link => link.1 == p) = true ↔ ∃ q, (p, q) ∈ c.links := by
  have hge : ∀ l ∈ c.onward p, p ≤ l.1 := fun l hl => h.le_of_mem_onward hl
  have hrise := h.rising_onward p
  have hlinks : (∃ q, (p, q) ∈ c.links) ↔ ∃ q, (p, q) ∈ c.onward p := by
    simp only [mem_links_iff (p := p)]
    refine ⟨?_, fun ⟨q, hq⟩ => ⟨q, Or.inr hq⟩⟩
    rintro ⟨q, hq | hq⟩
    · exact absurd (lt_of_mem_before hq) (lt_irrefl p)
    · exact ⟨q, hq⟩
  rw [hlinks]
  cases hon : c.onward p with
  | nil => simp
  | cons a as =>
      rw [hon] at hge hrise
      have hlater : ∀ l ∈ as, p < l.1 := fun l hl =>
        (hge a List.mem_cons_self).trans_lt ((List.pairwise_cons.1 hrise).1 l hl).1
      simp only [List.head?_cons, Option.any_some, beq_iff_eq, List.mem_cons]
      constructor
      · rintro rfl
        exact ⟨a.2, Or.inl rfl⟩
      · rintro ⟨q, rfl | hq⟩
        · rfl
        · exact absurd (hlater _ hq) (lt_irrefl p)

/-- Looking at the two neighbours is enough: a pair fits exactly when it conflicts with no
pair of the chain. -/
theorem WellFormed.viable_iff (h : c.WellFormed n) (p q : Nat) :
    c.viable p q = true ↔ ∀ l ∈ c.links, ¬ Conflict l (p, q) := by
  rw [viable, Bool.and_eq_true, Bool.and_eq_true, Bool.and_eq_true, Bool.not_eq_true',
    Bool.not_eq_true', ← Bool.not_eq_true, ← Bool.not_eq_true, h.taken_iff, h.used_iff,
    snd_lt_iff_of_getLast? (h.rising_before p), lt_snd_iff_of_head? (h.rising_onward p)]
  constructor
  · rintro ⟨⟨⟨hfree, -⟩, hbefore⟩, honward⟩ l hl
    rw [not_conflict_iff]
    rcases (mem_links_iff (p := p)).1 hl with hb | ho
    · exact Or.inl ⟨lt_of_mem_before hb, hbefore l hb⟩
    · have hne : l.1 ≠ p := fun heq => hfree ⟨l.2, by rw [← heq]; exact hl⟩
      have hle := h.le_of_mem_onward ho
      exact Or.inr ⟨by omega, honward l ho⟩
  · intro hall
    simp only [not_conflict_iff] at hall
    refine ⟨⟨⟨?_, ?_⟩, ?_⟩, ?_⟩
    · rintro ⟨q', hq'⟩
      have := hall _ hq'
      omega
    · rintro ⟨p', hp'⟩
      have := hall _ hp'
      omega
    · intro l hl
      have hlt := lt_of_mem_before hl
      have := hall l ((mem_links_iff (p := p)).2 (Or.inl hl))
      omega
    · intro l hl
      have hle := h.le_of_mem_onward hl
      have := hall l ((mem_links_iff (p := p)).2 (Or.inr hl))
      omega

theorem mem_links_insert {l : Nat × Nat} :
    l ∈ (c.insert p q).links ↔ l = (p, q) ∨ l ∈ c.links := by
  rw [mem_links_iff (p := p) (c := c)]
  simp only [insert, List.mem_append, List.mem_cons]
  tauto

theorem WellFormed.insert (h : c.WellFormed n) (hviable : c.viable p q = true) (hq : q < n) :
    (c.insert p q).WellFormed n where
  rising := by
    have hfit := (h.viable_iff p q).1 hviable
    simp only [not_conflict_iff] at hfit
    refine List.pairwise_append.2
      ⟨h.rising_before p, List.pairwise_cons.2 ⟨?_, h.rising_onward p⟩, ?_⟩
    · intro l hl
      have hle := h.le_of_mem_onward hl
      have := hfit l ((mem_links_iff (p := p)).2 (Or.inr hl))
      omega
    · intro a ha b hb
      have hlt := lt_of_mem_before ha
      rcases List.mem_cons.1 hb with rfl | hb
      · have := hfit a ((mem_links_iff (p := p)).2 (Or.inl ha))
        omega
      · have hsplit := h.rising
        rw [← before_append_onward c p, List.pairwise_append] at hsplit
        exact hsplit.2.2 a ha b hb
  used_iff q' := by
    have hbound : q < c.used.size := h.size_used ▸ hq
    have hmark : (c.insert p q).used.getD q' false = true ↔
        q' = q ∨ c.used.getD q' false = true := by
      simp only [Chain.insert, Array.getD_eq_getD_getElem?, Array.getElem?_setIfInBounds]
      by_cases heq : q = q'
      · subst heq
        simp [hbound]
      · simp [heq, Ne.symm heq]
    rw [hmark, h.used_iff]
    simp only [mem_links_insert, Prod.mk.injEq, exists_or, exists_eq_left]
  size_used := by simp [Chain.insert, h.size_used]

end Chain

end VideoFingerprint
