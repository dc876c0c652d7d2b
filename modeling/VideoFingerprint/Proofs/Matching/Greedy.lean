import Mathlib.Data.Set.Basic
import VideoFingerprint.Proofs.Matching.Rank

/-!
What the alignment takes, said without an order of trying. Candidates of smaller rank come
first; a candidate is taken when nothing taken before conflicts with it, unless its mirror
image could be taken just as well. One set of candidates has this property, and the chain that
is built up rank by rank holds this set, in whatever order the candidates of one rank are
tried.
-/

namespace VideoFingerprint

open Candidate

/-- A taken candidate of smaller rank conflicts with `c`. -/
def Blocked (taken : Set Candidate) (c : Candidate) : Prop :=
  ∃ a ∈ taken, a.rank < c.rank ∧ Conflict a.places c.places

/-- The candidates that a greedy alignment takes: those that are not blocked, while every other
candidate of their rank is. -/
structure IsGreedy (candidates : List Candidate) (taken : Set Candidate) : Prop where
  subset : ∀ c ∈ taken, c ∈ candidates
  mem_iff : ∀ c ∈ candidates, c ∈ taken ↔
    ¬ Blocked taken c ∧ ∀ d ∈ candidates, d ≠ c → d.rank = c.rank → Blocked taken d

/-- Whether a candidate is blocked is settled by the taken candidates of smaller rank. -/
theorem blocked_congr {taken taken' : Set Candidate} {c : Candidate}
    (h : ∀ a, a.rank < c.rank → (a ∈ taken ↔ a ∈ taken')) :
    Blocked taken c ↔ Blocked taken' c := by
  refine exists_congr fun a => ?_
  constructor
  · exact fun ⟨ha, hlt, hconflict⟩ => ⟨(h a hlt).1 ha, hlt, hconflict⟩
  · exact fun ⟨ha, hlt, hconflict⟩ => ⟨(h a hlt).2 ha, hlt, hconflict⟩

/-- A greedy alignment only depends on which candidates there are. -/
theorem IsGreedy.of_mem_iff {cs ds : List Candidate} {taken : Set Candidate}
    (h : IsGreedy cs taken) (hmem : ∀ c, c ∈ cs ↔ c ∈ ds) : IsGreedy ds taken where
  subset c hc := (hmem c).1 (h.subset c hc)
  mem_iff c hc := by
    simp only [← hmem]
    exact h.mem_iff c ((hmem c).2 hc)

/-- There is only one greedy alignment. -/
theorem IsGreedy.unique {cs : List Candidate} {taken taken' : Set Candidate}
    (h : IsGreedy cs taken) (h' : IsGreedy cs taken') : taken = taken' := by
  have hrank : ∀ r : Nat ×ₗ Nat ×ₗ Nat ×ₗ Nat ×ₗ Nat, ∀ c, c.rank = r →
      (c ∈ taken ↔ c ∈ taken') := by
    intro r
    induction r using WellFoundedLT.induction with
    | ind r ih =>
      rintro c rfl
      by_cases hc : c ∈ cs
      · have hblocked : ∀ d : Candidate, d.rank = c.rank →
          (Blocked taken d ↔ Blocked taken' d) :=
          fun d heq => blocked_congr fun a hlt => ih a.rank (hlt.trans_eq heq) a rfl
        rw [h.mem_iff c hc, h'.mem_iff c hc, hblocked c rfl]
        refine and_congr_right fun _ => forall_congr' fun d => forall_congr' fun _ =>
          forall_congr' fun _ => forall_congr' fun heq => hblocked d heq
      · exact ⟨fun hin => absurd (h.subset c hin) hc, fun hin => absurd (h'.subset c hin) hc⟩
  ext c
  exact hrank c.rank c rfl

namespace Chain

def taken (chain : Chain) (candidates : List Candidate) : Set Candidate :=
  {c | c ∈ candidates ∧ chain.contains c.p c.q = true}

theorem mem_taken_iff {chain : Chain} {cs : List Candidate} {c : Candidate} :
    c ∈ chain.taken cs ↔ c ∈ cs ∧ c.places ∈ chain.links := by
  rw [taken, Set.mem_ofPred_eq, contains, List.contains_iff_mem]
  rfl

variable {n : Nat} {chain : Chain} {done group : List Candidate}

/-- One rank adds at most one pair: that of the only candidate that fits. -/
theorem mem_links_extend_iff (hgroup : group.Nodup) (l : Nat × Nat) :
    l ∈ (chain.extend group).links ↔ l ∈ chain.links ∨
      ∃ x ∈ group, x.places = l ∧ chain.viable x.p x.q = true ∧
        ∀ y ∈ group, chain.viable y.p y.q = true → y = x := by
  have hfits : ∀ x, x ∈ group.filter (fun x => chain.viable x.p x.q) ↔
      x ∈ group ∧ chain.viable x.p x.q = true := fun x => List.mem_filter
  have hnodup := hgroup.filter fun x => chain.viable x.p x.q
  unfold extend
  generalize group.filter (fun x => chain.viable x.p x.q) = fits at hfits hnodup
  match fits with
  | [] =>
      refine ⟨Or.inl, ?_⟩
      rintro (hl | ⟨x, hx, -, hviable, -⟩)
      · exact hl
      · exact absurd ((hfits x).2 ⟨hx, hviable⟩) List.not_mem_nil
  | [only] =>
      have honly := (hfits only).1 List.mem_cons_self
      rw [mem_links_insert, or_comm]
      refine or_congr_right ⟨?_, ?_⟩
      · rintro rfl
        refine ⟨only, honly.1, rfl, honly.2, fun y hy hviable => ?_⟩
        exact List.mem_singleton.1 ((hfits y).2 ⟨hy, hviable⟩)
      · rintro ⟨x, -, rfl, -, hunique⟩
        rw [← hunique only honly.1 honly.2]
        rfl
  | a :: b :: rest =>
      have ha := (hfits a).1 List.mem_cons_self
      have hb := (hfits b).1 (List.mem_cons_of_mem a List.mem_cons_self)
      have hne : a ≠ b := fun heq =>
        (List.nodup_cons.1 hnodup).1 (heq ▸ List.mem_cons_self)
      refine ⟨Or.inl, ?_⟩
      rintro (hl | ⟨x, -, -, -, hunique⟩)
      · exact hl
      · exact absurd ((hunique a ha.1 ha.2).trans (hunique b hb.1 hb.2).symm) hne

/-- Trying a rank keeps a chain well formed. -/
theorem WellFormed.extend (h : chain.WellFormed n) (hgroup : ∀ x ∈ group, x.q < n) :
    (chain.extend group).WellFormed n := by
  unfold Chain.extend
  split
  · rename_i only honly
    have hmem : only ∈ group.filter fun x => chain.viable x.p x.q := by
      rw [honly]
      exact List.mem_cons_self
    rw [List.mem_filter] at hmem
    exact h.insert hmem.2 (hgroup only hmem.1)
  · exact h

/-- A chain that holds the greedy alignment of the candidates tried so far. -/
structure HoldsGreedy (n : Nat) (done : List Candidate) (chain : Chain) : Prop where
  wellFormed : chain.WellFormed n
  links_subset : ∀ l ∈ chain.links, ∃ x ∈ done, x.places = l
  greedy : IsGreedy done (chain.taken done)

theorem holdsGreedy_empty (n : Nat) : (empty n).HoldsGreedy n [] where
  wellFormed := wellFormed_empty n
  links_subset := by simp [empty]
  greedy := ⟨fun _ hc => hc.1, fun _ hc => absurd hc List.not_mem_nil⟩

/-- A candidate of a later rank fits exactly when it is not blocked. -/
theorem HoldsGreedy.viable_iff (h : chain.HoldsGreedy n done) {x : Candidate}
    (hlater : ∀ a ∈ done, a.rank < x.rank) :
    chain.viable x.p x.q = true ↔ ¬ Blocked (chain.taken done) x := by
  rw [h.wellFormed.viable_iff]
  constructor
  · rintro hall ⟨a, ha, -, hconflict⟩
    exact hall a.places (mem_taken_iff.1 ha).2 hconflict
  · intro hfree l hl hconflict
    obtain ⟨a, ha, rfl⟩ := h.links_subset l hl
    exact hfree ⟨a, mem_taken_iff.2 ⟨ha, hl⟩, hlater a ha, hconflict⟩

/-- Groups of candidates that are still to be tried after the candidates of `done`: one rank
after another, each group holding all that is left of its rank. -/
structure InRankOrder (n : Nat) (done : List Candidate) (groups : List (List Candidate)) :
    Prop where
  q_lt : ∀ x ∈ groups.flatten, x.q < n
  nodup : ∀ g ∈ groups, g.Nodup
  same : ∀ g ∈ groups, ∀ a ∈ g, ∀ b ∈ g, a.rank = b.rank
  rising : (done :: groups).Pairwise fun g g' => ∀ a ∈ g, ∀ b ∈ g', a.rank < b.rank
  known : ∀ a ∈ done ++ groups.flatten, ∀ b ∈ done ++ groups.flatten, a.places = b.places →
    a = b

theorem InRankOrder.tail {groups : List (List Candidate)}
    (h : InRankOrder n done (group :: groups)) :
    InRankOrder n (done ++ group) groups where
  q_lt x hx := h.q_lt x (List.mem_append_right group hx)
  nodup g hg := h.nodup g (List.mem_cons_of_mem group hg)
  same g hg := h.same g (List.mem_cons_of_mem group hg)
  rising := by
    obtain ⟨hdone, hrest⟩ := List.pairwise_cons.1 h.rising
    obtain ⟨hgroup, hgroups⟩ := List.pairwise_cons.1 hrest
    refine List.pairwise_cons.2 ⟨fun g hg a ha b hb => ?_, hgroups⟩
    rcases List.mem_append.1 ha with ha | ha
    · exact hdone g (List.mem_cons_of_mem group hg) a ha b hb
    · exact hgroup g hg a ha b hb
  known := by
    have hknown := h.known
    rwa [List.flatten_cons, ← List.append_assoc] at hknown

section NextRank

variable {groups : List (List Candidate)} {x : Candidate}

theorem InRankOrder.rank_lt (h : InRankOrder n done (group :: groups)) {a b : Candidate}
    (ha : a ∈ done) (hb : b ∈ group) : a.rank < b.rank :=
  (List.pairwise_cons.1 h.rising).1 group List.mem_cons_self a ha b hb

theorem InRankOrder.rank_eq (h : InRankOrder n done (group :: groups)) {a b : Candidate}
    (ha : a ∈ group) (hb : b ∈ group) : a.rank = b.rank :=
  h.same group List.mem_cons_self a ha b hb

theorem InRankOrder.notMem_done (h : InRankOrder n done (group :: groups)) (hx : x ∈ group) :
    x ∉ done :=
  fun hdone => lt_irrefl _ (h.rank_lt hdone hx)

theorem InRankOrder.eq_of_places_eq (h : InRankOrder n done (group :: groups))
    {a b : Candidate} (ha : a ∈ done ++ group) (hb : b ∈ done ++ group)
    (heq : a.places = b.places) : a = b :=
  h.tail.known a (List.mem_append_left _ ha) b (List.mem_append_left _ hb) heq

theorem InRankOrder.mem_links_extend_iff (h : InRankOrder n done (group :: groups))
    (l : Nat × Nat) :
    l ∈ (chain.extend group).links ↔ l ∈ chain.links ∨
      ∃ x ∈ group, x.places = l ∧ chain.viable x.p x.q = true ∧
        ∀ y ∈ group, chain.viable y.p y.q = true → y = x :=
  Chain.mem_links_extend_iff (h.nodup group List.mem_cons_self) l

/-- What was taken before stays, and nothing of an earlier rank is added. -/
theorem mem_taken_extend_of_mem_done (horder : InRankOrder n done (group :: groups))
    (hx : x ∈ done) :
    x ∈ (chain.extend group).taken (done ++ group) ↔ x ∈ chain.taken done := by
  have hin : x ∈ done ++ group := List.mem_append_left group hx
  simp only [mem_taken_iff, hx, hin, true_and, horder.mem_links_extend_iff]
  refine ⟨?_, Or.inl⟩
  rintro (hl | ⟨y, hy, hplaces, -, -⟩)
  · exact hl
  · obtain rfl := horder.eq_of_places_eq (List.mem_append_right done hy) hin hplaces
    exact absurd hx (horder.notMem_done hy)

/-- Of the next rank, a candidate is taken when no other one fits. -/
theorem HoldsGreedy.mem_taken_extend_of_mem_group (h : chain.HoldsGreedy n done)
    (horder : InRankOrder n done (group :: groups)) (hx : x ∈ group) :
    x ∈ (chain.extend group).taken (done ++ group) ↔
      chain.viable x.p x.q = true ∧ ∀ y ∈ group, chain.viable y.p y.q = true → y = x := by
  have hin : x ∈ done ++ group := List.mem_append_right done hx
  simp only [mem_taken_iff, hin, true_and, horder.mem_links_extend_iff]
  constructor
  · rintro (hl | ⟨y, hy, hplaces, hy'⟩)
    · obtain ⟨y, hy, hplaces⟩ := h.links_subset _ hl
      obtain rfl := horder.eq_of_places_eq (List.mem_append_left group hy) hin hplaces
      exact absurd hy (horder.notMem_done hx)
    · rwa [← horder.eq_of_places_eq (List.mem_append_right done hy) hin hplaces]
  · exact fun hx' => Or.inr ⟨x, hx, rfl, hx'⟩

/-- Up to the next rank the same candidates block. -/
theorem blocked_extend_iff (horder : InRankOrder n done (group :: groups))
    (hx : x ∈ done ++ group) :
    Blocked ((chain.extend group).taken (done ++ group)) x ↔ Blocked (chain.taken done) x := by
  refine blocked_congr fun a hlt => ?_
  by_cases ha : a ∈ done
  · exact mem_taken_extend_of_mem_done horder ha
  · refine ⟨fun hin => ?_, fun hin => absurd hin.1 ha⟩
    have hgroup := (List.mem_append.1 hin.1).resolve_left ha
    rcases List.mem_append.1 hx with hdone | hx
    · exact absurd hlt (horder.rank_lt hdone hgroup).asymm
    · exact absurd hlt (horder.rank_eq hgroup hx ▸ lt_irrefl _)

/-- Trying the candidates of the next rank. -/
theorem HoldsGreedy.extend (h : chain.HoldsGreedy n done)
    (horder : InRankOrder n done (group :: groups)) :
    (chain.extend group).HoldsGreedy n (done ++ group) := by
  have hviable : ∀ x ∈ group, chain.viable x.p x.q = true ↔ ¬ Blocked (chain.taken done) x :=
    fun x hx => h.viable_iff fun a ha => horder.rank_lt ha hx
  refine ⟨h.wellFormed.extend fun x hx => ?_, ?_, fun c hc => hc.1, ?_⟩
  · exact horder.q_lt x (List.mem_flatten_of_mem List.mem_cons_self hx)
  · intro l hl
    rcases (horder.mem_links_extend_iff l).1 hl with hl | ⟨x, hx, hplaces, -⟩
    · obtain ⟨x, hx, hplaces⟩ := h.links_subset l hl
      exact ⟨x, List.mem_append_left group hx, hplaces⟩
    · exact ⟨x, List.mem_append_right done hx, hplaces⟩
  · intro c hc
    rw [blocked_extend_iff horder hc]
    rcases List.mem_append.1 hc with hdone | hgroup
    · rw [mem_taken_extend_of_mem_done horder hdone, h.greedy.mem_iff c hdone]
      refine and_congr_right fun _ =>
        ⟨fun hall d hd hne heq => ?_, fun hall d hd hne heq => ?_⟩
      · refine (blocked_extend_iff horder hd).2 (hall d ?_ hne heq)
        refine (List.mem_append.1 hd).resolve_right fun hd => ?_
        exact absurd (horder.rank_lt hdone hd) (heq ▸ lt_irrefl _)
      · have hd := List.mem_append_left group hd
        exact (blocked_extend_iff horder hd).1 (hall d hd hne heq)
    · rw [h.mem_taken_extend_of_mem_group horder hgroup, hviable c hgroup]
      refine and_congr_right fun _ => ⟨fun hall d hd hne heq => ?_, fun hall d hd hfits => ?_⟩
      · have hd' : d ∈ group := by
          refine (List.mem_append.1 hd).resolve_left fun hd => ?_
          exact absurd (horder.rank_lt hd hgroup) (heq ▸ lt_irrefl _)
        rw [blocked_extend_iff horder hd]
        by_contra hfree
        exact hne (hall d hd' ((hviable d hd').2 hfree))
      · by_contra hne
        have hd' := List.mem_append_right done hd
        have hblocked := hall d hd' hne (horder.rank_eq hd hgroup)
        exact (hviable d hd).1 hfits ((blocked_extend_iff horder hd').1 hblocked)

end NextRank

/-- Trying rank after rank. -/
theorem HoldsGreedy.foldl_extend {groups : List (List Candidate)}
    (h : chain.HoldsGreedy n done) (horder : InRankOrder n done groups) :
    (groups.foldl Chain.extend chain).HoldsGreedy n (done ++ groups.flatten) := by
  induction groups generalizing done chain with
  | nil => simpa using h
  | cons g groups ih =>
      rw [List.flatten_cons, ← List.append_assoc, List.foldl_cons]
      exact ih (h.extend horder) horder.tail

theorem inRankOrder_splitBy {sorted : List Candidate} (hq : ∀ x ∈ sorted, x.q < n)
    (hnodup : sorted.Nodup) (hsorted : sorted.Pairwise fun a b => a.rank ≤ b.rank)
    (hknown : ∀ a ∈ sorted, ∀ b ∈ sorted, a.places = b.places → a = b) :
    InRankOrder n [] (sorted.splitBy sameRank) := by
  obtain ⟨hsame, hrising⟩ := splitBy_sameRank hsorted
  have hflat : (sorted.splitBy sameRank).flatten = sorted :=
    List.flatten_splitBy sameRank sorted
  refine ⟨?_, fun g hg => ?_, hsame, ?_, ?_⟩
  · rwa [hflat]
  · rw [← hflat] at hnodup
    exact hnodup.sublist (List.sublist_flatten_of_mem hg)
  · exact List.pairwise_cons.2 ⟨fun g _ a ha => absurd ha List.not_mem_nil, hrising⟩
  · rwa [List.nil_append, hflat]

/-- The chain built up from sorted candidates holds their greedy alignment. -/
theorem holdsGreedy_ofSorted {sorted : List Candidate} (hq : ∀ x ∈ sorted, x.q < n)
    (hnodup : sorted.Nodup) (hsorted : sorted.Pairwise fun a b => a.rank ≤ b.rank)
    (hknown : ∀ a ∈ sorted, ∀ b ∈ sorted, a.places = b.places → a = b) :
    (ofSorted n sorted).HoldsGreedy n sorted := by
  have hrun :=
    (holdsGreedy_empty n).foldl_extend (inRankOrder_splitBy hq hnodup hsorted hknown)
  rwa [List.nil_append, List.flatten_splitBy] at hrun

end Chain

end VideoFingerprint
