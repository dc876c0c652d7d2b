import VideoFingerprint.Proofs.Matching.Greedy

/-!
The alignment of two fingerprints as a greedy alignment. The chain that the sorted candidates
build up, and with it the list of accepted candidates, is the greedy alignment of all
candidates, whatever the order inside a rank.
-/

namespace VideoFingerprint

open Candidate

variable {cfg : MatchConfig} {query reference : List Feature}

/-- Every arrangement of the candidates by rank builds up a chain with their
greedy alignment. -/
theorem holdsGreedy_of_perm {sorted : List Candidate}
    (hperm : sorted.Perm (all cfg query reference))
    (hsorted : sorted.Pairwise fun a b => a.rank ≤ b.rank) :
    (Chain.ofSorted reference.length sorted).HoldsGreedy reference.length sorted := by
  refine Chain.holdsGreedy_ofSorted
    (fun x hx => q_lt_length (hperm.mem_iff.1 hx)) ?_ hsorted ?_
  · exact hperm.nodup_iff.2 (nodup_all cfg query reference)
  · exact fun a ha b hb => eq_of_places_eq (hperm.mem_iff.1 ha) (hperm.mem_iff.1 hb)

theorem taken_congr {chain : Chain} {cs ds : List Candidate} (h : ∀ c, c ∈ cs ↔ c ∈ ds) :
    chain.taken cs = chain.taken ds := by
  ext c
  rw [Chain.mem_taken_iff, Chain.mem_taken_iff, h]

/-! ### The candidates that a comparison takes -/

theorem perm_rankedCandidates (cfg : MatchConfig) (query reference : List Feature) :
    (rankedCandidates cfg query reference).Perm (all cfg query reference) :=
  List.mergeSort_perm _ _

theorem holdsGreedy_rankedCandidates (cfg : MatchConfig) (query reference : List Feature) :
    (Chain.ofSorted reference.length (rankedCandidates cfg query reference)).HoldsGreedy
      reference.length (rankedCandidates cfg query reference) :=
  holdsGreedy_of_perm (perm_rankedCandidates cfg query reference) (pairwise_rank_mergeSort _)

theorem mem_acceptedCandidates_iff {c : Candidate} :
    c ∈ acceptedCandidates cfg query reference ↔
      c ∈ (Chain.ofSorted reference.length (rankedCandidates cfg query reference)).taken
        (rankedCandidates cfg query reference) := by
  rw [acceptedCandidates, List.mem_mergeSort, List.mem_filter]
  rfl

/-- The accepted candidates of a comparison are the greedy alignment of all candidates. -/
theorem isGreedy_acceptedCandidates (cfg : MatchConfig) (query reference : List Feature) :
    IsGreedy (all cfg query reference) {c | c ∈ acceptedCandidates cfg query reference} := by
  have hgreedy := (holdsGreedy_rankedCandidates cfg query reference).greedy
  have hset : {c | c ∈ acceptedCandidates cfg query reference} =
      (Chain.ofSorted reference.length (rankedCandidates cfg query reference)).taken
        (rankedCandidates cfg query reference) := by
    ext c
    exact mem_acceptedCandidates_iff
  rw [hset]
  exact hgreedy.of_mem_iff fun c => (perm_rankedCandidates cfg query reference).mem_iff

/-- The places of the accepted candidates rise on both sides. -/
theorem pairwise_acceptedCandidates (cfg : MatchConfig) (query reference : List Feature) :
    (acceptedCandidates cfg query reference).Pairwise fun a b => a.p < b.p ∧ a.q < b.q := by
  have hwell := (holdsGreedy_rankedCandidates cfg query reference).wellFormed
  have hnodup : (acceptedCandidates cfg query reference).Nodup := by
    refine (List.mergeSort_perm _ _).nodup_iff.2 (List.Nodup.filter _ ?_)
    exact (perm_rankedCandidates cfg query reference).nodup_iff.2
      (nodup_all cfg query reference)
  have htrans : ∀ a b c : Candidate, decide (a.p ≤ b.p) = true → decide (b.p ≤ c.p) = true →
      decide (a.p ≤ c.p) = true := by
    simp only [decide_eq_true_eq]
    exact fun _ _ _ => Nat.le_trans
  have htotal : ∀ a b : Candidate, (decide (a.p ≤ b.p) || decide (b.p ≤ a.p)) = true := by
    simp only [Bool.or_eq_true, decide_eq_true_eq]
    exact fun a b => Nat.le_total a.p b.p
  have hsorted : (acceptedCandidates cfg query reference).Pairwise fun a b => a.p ≤ b.p :=
    (List.pairwise_mergeSort htrans htotal _).imp fun hab => of_decide_eq_true hab
  refine (hsorted.and hnodup).imp_of_mem fun {a b} ha hb hab => ?_
  obtain ⟨hle, hne⟩ := hab
  rw [mem_acceptedCandidates_iff, Chain.mem_taken_iff] at ha hb
  have hperm := perm_rankedCandidates cfg query reference
  have hplaces : a.places ≠ b.places := fun heq =>
    hne (eq_of_places_eq (hperm.mem_iff.1 ha.1) (hperm.mem_iff.1 hb.1) heq)
  have happart := (not_conflict_iff _ _).1 (hwell.not_conflict ha.2 hb.2 hplaces)
  simp only [places] at happart
  omega

/-! ### Independence of the order of trying -/

/-- An alignment does not depend on the order in which candidates of one rank are tried.
Candidates of one rank are mirror images, which cross; and every arrangement of all candidates
by rank builds up a chain with the only greedy alignment there is, which is also what a
comparison accepts. -/
theorem taken_ofSorted_eq_greedy (cfg : MatchConfig) (query reference : Fingerprint) :
    let qs := query.eligible cfg.minQuality
    let rs := reference.eligible cfg.minQuality
    let cs := all cfg qs rs
    (∀ p q, (∃ c ∈ cs, c.places = (p, q)) ↔
      ∃ f g, qs[p]? = some f ∧ rs[q]? = some g ∧ f.hash.distance g.hash ≤ cfg.threshold) ∧
    (∀ a ∈ cs, ∀ b ∈ cs, a ≠ b → a.rank = b.rank →
      a.places = b.places.swap ∧ Conflict a.places b.places) ∧
    (∀ sorted : List Candidate, sorted.Perm cs → sorted.Pairwise (fun a b => a.rank ≤ b.rank) →
      let chain := Chain.ofSorted rs.length sorted
      (∀ l, l ∈ chain.links ↔ ∃ c ∈ chain.taken cs, c.places = l) ∧
      IsGreedy cs (chain.taken cs) ∧
      (∀ other, IsGreedy cs other → other = chain.taken cs) ∧
      chain.taken cs = {c | c ∈ acceptedCandidates cfg qs rs}) := by
  intro qs rs cs
  refine ⟨fun p q => ?_, fun a ha b hb => swap_and_conflict_of_rank_eq ha hb, ?_⟩
  · constructor
    · rintro ⟨c, hc, hplaces⟩
      obtain ⟨rfl, rfl⟩ := Prod.mk.inj hplaces
      obtain ⟨hf, hg, hd, hwithin⟩ := mem_all_iff.1 hc
      refine ⟨c.query, c.reference, hf, hg, ?_⟩
      rw [← hd]
      simpa [MatchConfig.within] using hwithin
    · rintro ⟨f, g, hf, hg, hle⟩
      refine ⟨⟨p, q, f, g, f.hash.distance g.hash⟩, mem_all_iff.2 ⟨hf, hg, rfl, ?_⟩, rfl⟩
      simpa [MatchConfig.within] using hle
  · intro sorted hperm hsorted chain
    have hholds : chain.HoldsGreedy rs.length sorted := holdsGreedy_of_perm hperm hsorted
    have htaken : chain.taken sorted = chain.taken cs := taken_congr fun c => hperm.mem_iff
    have hgreedy : IsGreedy cs (chain.taken cs) := by
      rw [← htaken]
      exact hholds.greedy.of_mem_iff fun c => hperm.mem_iff
    refine ⟨fun l => ?_, hgreedy, fun other hother => hother.unique hgreedy,
      hgreedy.unique (isGreedy_acceptedCandidates cfg qs rs)⟩
    constructor
    · intro hl
      obtain ⟨c, hc, rfl⟩ := hholds.links_subset l hl
      exact ⟨c, Chain.mem_taken_iff.2 ⟨hperm.mem_iff.1 hc, hl⟩, rfl⟩
    · rintro ⟨c, hc, rfl⟩
      exact (Chain.mem_taken_iff.1 hc).2

def stillFrames : Fingerprint :=
  ⟨[⟨0, 0, ⟨0⟩, 100⟩, ⟨1, 1, ⟨0⟩, 100⟩], 1, 2, by decide +kernel⟩

def stillCandidate (p q : Nat) : Candidate :=
  ⟨p, q, ⟨p, Float.ofNat p, ⟨0⟩, 100⟩, ⟨q, Float.ofNat q, ⟨0⟩, 100⟩, 0⟩

theorem eligible_stillFrames :
    stillFrames.eligible MatchConfig.default.minQuality = stillFrames.features := by
  have hgood : decide ((50 : Float) ≤ 100) = true := by decide +kernel
  refine List.filter_eq_self.2 fun f hf => ?_
  rcases List.mem_pair.1 hf with rfl | rfl <;> exact hgood

/-- The two crossing candidates of a still picture may be tried either way round;
neither is taken. -/
theorem taken_ofSorted_stillFrames :
    let cs := all .default stillFrames.features stillFrames.features
    let sorted :=
      [stillCandidate 0 0, stillCandidate 1 0, stillCandidate 0 1, stillCandidate 1 1]
    (stillCandidate 0 1 ∈ cs ∧ stillCandidate 1 0 ∈ cs ∧
      stillCandidate 0 1 ≠ stillCandidate 1 0 ∧
      (stillCandidate 0 1).rank = (stillCandidate 1 0).rank ∧
      Conflict (stillCandidate 0 1).places (stillCandidate 1 0).places) ∧
    sorted.Perm cs ∧ sorted.Pairwise (fun a b => a.rank ≤ b.rank) ∧
      IsGreedy cs ((Chain.ofSorted 2 sorted).taken cs) ∧
      {c | c ∈ acceptedCandidates .default stillFrames.features stillFrames.features} =
        (Chain.ofSorted 2 sorted).taken cs ∧
      (Chain.ofSorted 2 sorted).links = [(0, 0), (1, 1)] := by
  intro cs sorted
  have h := taken_ofSorted_eq_greedy .default stillFrames stillFrames
  rw [eligible_stillFrames] at h
  obtain ⟨-, hsame, harranged⟩ := h
  have hne : stillCandidate 0 1 ≠ stillCandidate 1 0 := fun h =>
    absurd (congrArg Candidate.p h) (by decide)
  have hrank : (stillCandidate 0 1).rank = (stillCandidate 1 0).rank := by decide
  have hmem : stillCandidate 0 1 ∈ cs := List.mem_cons_of_mem _ List.mem_cons_self
  have hmem' : stillCandidate 1 0 ∈ cs :=
    List.mem_cons_of_mem _ (List.mem_cons_of_mem _ List.mem_cons_self)
  have hperm : sorted.Perm cs := (List.Perm.swap _ _ _).cons _
  have hsorted : sorted.Pairwise fun a b => a.rank ≤ b.rank := by decide
  obtain ⟨-, hgreedy, hunique, -⟩ := harranged sorted hperm hsorted
  exact ⟨⟨hmem, hmem', hne, hrank, (hsame _ hmem _ hmem' hne hrank).2⟩, hperm, hsorted,
    hgreedy, hunique _ (isGreedy_acceptedCandidates _ _ _), by decide⟩

end VideoFingerprint
