import Mathlib.Data.Finset.Max
import VideoFingerprint.Proofs.Matching.Alignment

/-!
The chains that fitting pairs build up. A pair may join at any place of a chain, so pairs come
in any order; what they can build up is every chain that rises on both sides and marks its own
places of the reference, and no other. That the pairs rise is what makes the nearest pair on
each side speak for all the others.
-/

namespace VideoFingerprint.Chain

variable {n p q : ℕ} {c : Chain}

/-! ### Building up a chain -/

/-- The chains that are built up from no pairs by adding pairs that fit, one at a time
and in any order. -/
inductive Reachable (n : ℕ) : Chain → Prop
  | empty : Reachable n (empty n)
  | insert {c : Chain} {p q : ℕ} : Reachable n c → c.viable p q = true → q < n →
    Reachable n (c.insert p q)

theorem Reachable.wellFormed (h : Reachable n c) : c.WellFormed n := by
  induction h with
  | empty => exact wellFormed_empty n
  | insert _ hviable hq ih => exact ih.insert hviable hq

theorem eq_of_links_of_used {d : Chain} (hlinks : c.links = d.links)
    (hused : c.used = d.used) : c = d := by
  cases c
  cases d
  rw [mk.injEq]
  exact ⟨hlinks, hused⟩

theorem getD_setIfInBounds_false (marks : Array Bool) (i j : ℕ) :
    (marks.setIfInBounds i false).getD j false = true ↔ i ≠ j ∧ marks.getD j false = true := by
  simp only [Array.getD_eq_getD_getElem?, Array.getElem?_setIfInBounds]
  by_cases heq : i = j
  · subst heq
    by_cases hi : i < marks.size <;> simp [hi]
  · simp [heq]

def withoutLast (init : List (ℕ × ℕ)) (last : ℕ × ℕ) (used : Array Bool) : Chain :=
  ⟨init, used.setIfInBounds last.2 false⟩

section LastPair

variable {init : List (ℕ × ℕ)} {last : ℕ × ℕ} {used : Array Bool}

theorem WellFormed.lt_last (h : WellFormed n ⟨init ++ [last], used⟩) {l : ℕ × ℕ}
    (hl : l ∈ init) :
    l.1 < last.1 ∧ l.2 < last.2 :=
  (List.pairwise_append.1 h.rising).2.2 l hl last (List.mem_singleton_self last)

theorem WellFormed.snd_last_lt (h : WellFormed n ⟨init ++ [last], used⟩) : last.2 < n := by
  have hmark : used.getD last.2 false = true := (h.used_iff last.2).2 ⟨last.1, by simp⟩
  have hsize : used.size = n := h.size_used
  by_contra hout
  rw [Array.getD_eq_getD_getElem?, Array.getElem?_eq_none (by omega)] at hmark
  cases hmark

theorem WellFormed.withoutLast (h : WellFormed n ⟨init ++ [last], used⟩) :
    (withoutLast init last used).WellFormed n where
  rising := (List.pairwise_append.1 h.rising).1
  used_iff q := by
    rw [Chain.withoutLast, getD_setIfInBounds_false, h.used_iff q]
    simp only [List.mem_append, List.mem_singleton]
    constructor
    · rintro ⟨hne, p, hp | rfl⟩
      · exact ⟨p, hp⟩
      · exact absurd rfl hne
    · rintro ⟨p, hp⟩
      exact ⟨(h.lt_last hp).2.ne', p, .inl hp⟩
  size_used := by simpa [Chain.withoutLast] using h.size_used

/-- The last pair fits the chain before it and brings the chain back. -/
theorem WellFormed.insert_last (h : WellFormed n ⟨init ++ [last], used⟩) :
    (Chain.withoutLast init last used).viable last.1 last.2 = true ∧
      (Chain.withoutLast init last used).insert last.1 last.2 = ⟨init ++ [last], used⟩ := by
  constructor
  · rw [h.withoutLast.viable_iff]
    exact fun l hl => (not_conflict_iff _ _).2 (.inl (h.lt_last hl))
  · have hall : ∀ l ∈ init, decide (l.1 < last.1) = true :=
      fun l hl => decide_eq_true (h.lt_last hl).1
    refine eq_of_links_of_used ?_ ?_
    · show init.takeWhile _ ++ last :: init.dropWhile _ = init ++ [last]
      rw [List.takeWhile_eq_self_iff.2 hall, List.dropWhile_eq_nil_iff.2 hall]
    · have hmark : used.getD last.2 false = true := (h.used_iff last.2).2 ⟨last.1, by simp⟩
      show (used.setIfInBounds last.2 false).setIfInBounds last.2 true = used
      refine Array.ext_getElem? fun i => ?_
      rw [Array.getD_eq_getD_getElem?] at hmark
      simp only [Array.getElem?_setIfInBounds]
      grind

end LastPair

/-- The chains that can be built up are those whose pairs rise on both sides while exactly
their places of the reference are marked. -/
theorem reachable_iff : Reachable n c ↔ c.WellFormed n := by
  refine ⟨Reachable.wellFormed, fun h => ?_⟩
  obtain ⟨links, used⟩ := c
  induction links using List.reverseRecOn generalizing used with
  | nil =>
      have hnone : ∀ q, used.getD q false = false := fun q => by
        rw [← Bool.not_eq_true, h.used_iff q]
        simp
      have hempty : (⟨[], used⟩ : Chain) = empty n := by
        refine eq_of_links_of_used rfl
          (Array.ext (by simp [empty, h.size_used.symm]) fun i hi _ => ?_)
        have hmark := hnone i
        rw [Array.getD_eq_getD_getElem?, Array.getElem?_eq_getElem hi] at hmark
        simpa [empty] using hmark
      rw [hempty]
      exact .empty
  | append_singleton init last ih =>
      obtain ⟨hviable, hinsert⟩ := h.insert_last
      rw [← hinsert]
      exact .insert (ih _ h.withoutLast) hviable h.snd_last_lt

/-! ### Neighbours -/

structure LastBefore (c : Chain) (p : ℕ) (l : ℕ × ℕ) : Prop where
  mem : l ∈ c.links
  before : l.1 < p
  last : ∀ l' ∈ c.links, l'.1 < p → l'.1 ≤ l.1

structure FirstAfter (c : Chain) (p : ℕ) (l : ℕ × ℕ) : Prop where
  mem : l ∈ c.links
  after : p < l.1
  first : ∀ l' ∈ c.links, p < l'.1 → l.1 ≤ l'.1

/-- Neither place of a pair is taken, and its place of the reference lies between those of its
two neighbours. -/
structure FitsBetween (c : Chain) (p q : ℕ) : Prop where
  free : ∀ l ∈ c.links, l.1 ≠ p ∧ l.2 ≠ q
  left : ∀ l, c.LastBefore p l → l.2 < q
  right : ∀ l, c.FirstAfter p l → q < l.2

/-- Of the pairs with a property, one comes last when places are ordered in a given way. -/
theorem exists_last_link {α : Type} [LinearOrder α] (place : ℕ × ℕ → α) (P : ℕ × ℕ → Prop)
    [DecidablePred P] {l : ℕ × ℕ} (hl : l ∈ c.links) (h : P l) :
    ∃ m ∈ c.links, P m ∧ ∀ l' ∈ c.links, P l' → place l' ≤ place m := by
  obtain ⟨m, hm, hmax⟩ := (c.links.toFinset.filter P).exists_max_image place
    ⟨l, Finset.mem_filter.2 ⟨List.mem_toFinset.2 hl, h⟩⟩
  rw [Finset.mem_filter, List.mem_toFinset] at hm
  exact ⟨m, hm.1, hm.2, fun l' hl' hP =>
    hmax l' (Finset.mem_filter.2 ⟨List.mem_toFinset.2 hl', hP⟩)⟩

theorem exists_lastBefore {l : ℕ × ℕ} (hl : l ∈ c.links) (h : l.1 < p) :
    ∃ m, c.LastBefore p m := by
  obtain ⟨m, hm, hlt, hlast⟩ := exists_last_link (fun l => l.1) (fun l => l.1 < p) hl h
  exact ⟨m, hm, hlt, hlast⟩

theorem exists_firstAfter {l : ℕ × ℕ} (hl : l ∈ c.links) (h : p < l.1) :
    ∃ m, c.FirstAfter p m := by
  obtain ⟨m, hm, hlt, hfirst⟩ :=
    exists_last_link (fun l => OrderDual.toDual l.1) (fun l => p < l.1) hl h
  exact ⟨m, hm, hlt, hfirst⟩

/-- In a chain that rises on both sides, pairs are ordered on one side as on the other. -/
theorem WellFormed.snd_le_of_fst_le (h : c.WellFormed n) {l m : ℕ × ℕ} (hl : l ∈ c.links)
    (hm : m ∈ c.links) (hle : l.1 ≤ m.1) : l.2 ≤ m.2 := by
  by_cases heq : l = m
  · rw [heq]
  · have hapart := (not_conflict_iff l m).1 (h.not_conflict hl hm heq)
    omega

/-- The neighbours of a pair speak for the whole chain. -/
theorem WellFormed.fitsBetween_iff (h : c.WellFormed n) (p q : ℕ) :
    c.FitsBetween p q ↔ ∀ l ∈ c.links, ¬ Conflict l (p, q) := by
  simp only [not_conflict_iff]
  constructor
  · intro hfits l hl
    obtain ⟨hp, hq⟩ := hfits.free l hl
    rcases Nat.lt_or_gt_of_ne hp with hlt | hgt
    · obtain ⟨m, hm⟩ := exists_lastBefore hl hlt
      exact .inl ⟨hlt, (h.snd_le_of_fst_le hl hm.mem (hm.last l hl hlt)).trans_lt
        (hfits.left m hm)⟩
    · obtain ⟨m, hm⟩ := exists_firstAfter hl hgt
      exact .inr ⟨hgt, (hfits.right m hm).trans_le
        (h.snd_le_of_fst_le hm.mem hl (hm.first l hl hgt))⟩
  · intro hall
    refine ⟨fun l hl => ?_, fun l hl => ?_, fun l hl => ?_⟩
    · have := hall l hl
      omega
    · have := hall l hl.mem
      have := hl.before
      omega
    · have := hall l hl.mem
      have := hl.after
      omega

/-! ### Marks -/

/-- A chain has a mark for each place of the reference and no other. -/
theorem WellFormed.getElem?_used (h : c.WellFormed n) (q : ℕ) :
    c.used[q]? = if q < n then some (decide (∃ l ∈ c.links, l.2 = q)) else none := by
  have hused := h.used_iff q
  rw [Array.getD_eq_getD_getElem?] at hused
  split
  · rename_i hq
    rw [Array.getElem?_eq_getElem (h.size_used ▸ hq), Option.getD_some] at hused
    rw [Array.getElem?_eq_getElem (h.size_used ▸ hq), Option.some_inj, Bool.eq_iff_iff, hused,
      decide_eq_true_iff, Prod.exists]
    simp only [exists_eq_right]
  · rename_i hq
    exact Array.getElem?_eq_none (h.size_used ▸ Nat.le_of_not_lt hq)

/-- Which chains pairs that fit build up, in whatever order they come: those that rise on both
sides and mark exactly the places of the reference that they use. Such a chain has a mark for
each place of the reference and none past it; a pair fits exactly if it shares no frame with
any pair and crosses none, and also exactly if it lies between its two neighbours. The chain of
every alignment is built up so, from pairs whose places of the reference all have a mark. -/
theorem reachable_iff_and_viable_iff :
    (∀ n c, Reachable n c ↔ c.WellFormed n) ∧
    (∀ n c, Reachable n c →
      (∀ q, c.used[q]? = if q < n then some (decide (∃ l ∈ c.links, l.2 = q)) else none) ∧
      ∀ p q, (c.viable p q = true ↔ ∀ l ∈ c.links, ¬ Conflict l (p, q)) ∧
        (c.viable p q = true ↔ c.FitsBetween p q)) ∧
    ∀ cfg query reference,
      (∀ x ∈ rankedCandidates cfg query reference, x.q < reference.length) ∧
      Reachable reference.length
        (ofSorted reference.length (rankedCandidates cfg query reference)) := by
  refine ⟨fun n c => reachable_iff, fun n c h => ⟨h.wellFormed.getElem?_used, fun p q => ?_⟩,
    fun cfg query reference => ⟨fun x hx => ?_, ?_⟩⟩
  · have hwell := h.wellFormed
    rw [hwell.fitsBetween_iff]
    exact ⟨hwell.viable_iff p q, hwell.viable_iff p q⟩
  · exact Candidate.q_lt_length ((perm_rankedCandidates cfg query reference).mem_iff.1 hx)
  · exact reachable_iff.2 (holdsGreedy_rankedCandidates cfg query reference).wellFormed

def twoPairs : Chain := ((empty 10).insert 6 7).insert 2 5

/-- Between the two pairs there is room for one more; what would cross one of
them does not fit. -/
theorem viable_twoPairs : Reachable 10 twoPairs ∧ twoPairs.links = [(2, 5), (6, 7)] ∧
    twoPairs.used[7]? = some true ∧ twoPairs.used[6]? = some false ∧
    twoPairs.used[10]? = none ∧ twoPairs.FitsBetween 4 6 ∧ twoPairs.viable 4 6 = true ∧
    Conflict (6, 7) (7, 6) ∧ twoPairs.viable 7 6 = false ∧
    Conflict (2, 5) (3, 5) ∧ ¬ twoPairs.FitsBetween 3 5 := by
  have hreach : Reachable 10 twoPairs :=
    .insert (.insert .empty (by decide) (by decide)) (by decide) (by decide)
  obtain ⟨-, hfits, -⟩ := reachable_iff_and_viable_iff
  obtain ⟨hmarks, hpairs⟩ := hfits 10 twoPairs hreach
  have hviable : twoPairs.viable 4 6 = true := (hpairs 4 6).1.2 (by decide)
  have hcrossed : twoPairs.viable 7 6 = false := by
    rw [← Bool.not_eq_true, (hpairs 7 6).1]
    decide
  have hshared : ¬ twoPairs.FitsBetween 3 5 := by
    rw [← (hpairs 3 5).2]
    decide
  exact ⟨hreach, by decide, hmarks 7, hmarks 6, hmarks 10, (hpairs 4 6).2.1 hviable, hviable,
    by decide, hcrossed, by decide, hshared⟩

end VideoFingerprint.Chain
