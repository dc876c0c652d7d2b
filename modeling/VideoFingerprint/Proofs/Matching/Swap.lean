import VideoFingerprint.Proofs.Matching.Runs

/-!
Comparing in the other direction. The candidates of the exchanged comparison are the mirror
images of the candidates, with the same ranks and the same conflicts, so their greedy alignment
is the mirror image of the alignment, and runs, segments and scores follow.
-/

namespace VideoFingerprint

open Candidate

theorem blocked_mirror_iff {taken : Set Candidate} {c : Candidate} :
    Blocked {a | a.mirror ∈ taken} c ↔ Blocked taken c.mirror := by
  constructor
  · rintro ⟨a, ha, hlt, hconflict⟩
    refine ⟨a.mirror, ha, by simpa using hlt, ?_⟩
    rwa [places_mirror, places_mirror, conflict_swap_iff]
  · rintro ⟨a, ha, hlt, hconflict⟩
    refine ⟨a.mirror, ha, by simpa using hlt, ?_⟩
    rwa [places_mirror, ← conflict_swap_iff, Prod.swap_swap]

theorem IsGreedy.mirror {cs ds : List Candidate} {taken : Set Candidate}
    (h : IsGreedy cs taken) (hmirror : ∀ c, c ∈ ds ↔ c.mirror ∈ cs) :
    IsGreedy ds {c | c.mirror ∈ taken} where
  subset c hc := (hmirror c).2 (h.subset c.mirror hc)
  mem_iff c hc := by
    rw [blocked_mirror_iff]
    refine (h.mem_iff c.mirror ((hmirror c).1 hc)).trans (and_congr_right fun _ => ?_)
    constructor
    · intro hall d hd hne heq
      refine blocked_mirror_iff.2 (hall d.mirror ((hmirror d).1 hd) ?_ (by simpa using heq))
      exact fun hdc => hne (congrArg Candidate.mirror hdc)
    · intro hall d hd hne heq
      have hd' : d.mirror ∈ ds := (hmirror d.mirror).2 hd
      refine blocked_mirror_iff.1 (hall d.mirror hd' ?_ (by simpa using heq))
      exact fun hdc => hne (congrArg Candidate.mirror hdc)

/-- The exchanged comparison accepts the mirror images, in the same order. -/
theorem acceptedCandidates_swap (cfg : MatchConfig) (query reference : List Feature) :
    acceptedCandidates cfg reference query =
      (acceptedCandidates cfg query reference).map Candidate.mirror := by
  have hmirror : ∀ c, c ∈ all cfg reference query ↔ c.mirror ∈ all cfg query reference :=
    fun c => (mem_all_mirror_iff (c := c)).symm
  have hset := (isGreedy_acceptedCandidates cfg reference query).unique
    ((isGreedy_acceptedCandidates cfg query reference).mirror hmirror)
  have hmem : ∀ c, c ∈ acceptedCandidates cfg reference query ↔
      c ∈ (acceptedCandidates cfg query reference).map Candidate.mirror := by
    intro c
    have hc : c ∈ acceptedCandidates cfg reference query ↔
        c.mirror ∈ acceptedCandidates cfg query reference := Set.ext_iff.1 hset c
    rw [hc, List.mem_map]
    constructor
    · exact fun h => ⟨c.mirror, h, rfl⟩
    · rintro ⟨d, hd, rfl⟩
      exact hd
  have hleft : (acceptedCandidates cfg reference query).Pairwise fun a b => a.p < b.p :=
    (pairwise_acceptedCandidates cfg reference query).imp And.left
  have hright : ((acceptedCandidates cfg query reference).map Candidate.mirror).Pairwise
      fun a b => a.p < b.p :=
    List.pairwise_map.2 ((pairwise_acceptedCandidates cfg query reference).imp And.right)
  have : Std.Irrefl fun a b : Candidate => a.p < b.p := ⟨fun a => Nat.lt_irrefl a.p⟩
  have : Std.Antisymm fun a b : Candidate => a.p < b.p :=
    ⟨fun a b hab hba => absurd hab hba.asymm⟩
  exact hleft.eq_of_mem_iff hright (fun {c} => hmem c)

theorem follows_mirror (a b : Candidate) : a.mirror.follows b.mirror = a.follows b := by
  simp only [follows, mirror, and_comm]

theorem splitBy_map_mirror (cs : List Candidate) :
    (cs.map Candidate.mirror).splitBy follows =
      (cs.splitBy follows).map (List.map Candidate.mirror) :=
  splitBy_map follows_mirror cs

theorem matchedRuns_swap (cfg : MatchConfig) (query reference : List Feature) :
    matchedRuns cfg reference query =
      (matchedRuns cfg query reference).map (List.map MatchedPair.swapped) := by
  have hpair : MatchedPair.swapped ∘ toPair = toPair ∘ Candidate.mirror := rfl
  simp only [matchedRuns, acceptedCandidates_swap cfg query reference, splitBy_map_mirror,
    List.filter_map, List.map_map]
  congr 1
  · funext run
    simp only [Function.comp_apply, List.map_map, hpair]
  · congr 1
    funext run
    simp only [Function.comp_apply, List.length_map]

/-- Reading a result of ordered runs from the other side. -/
theorem swapped_ofRuns {runs : List (List MatchedPair)} (m n : Nat)
    (h : runs.flatten.Pairwise fun a b =>
      a.query.frame < b.query.frame ∧ a.reference.frame < b.reference.frame) :
    (MatchResult.ofRuns runs m n).swapped =
      MatchResult.ofRuns (runs.map (List.map MatchedPair.swapped)) n m := by
  have hpairs : (runs.flatten.map MatchedPair.swapped).Pairwise fun a b =>
      decide (a.query.frame ≤ b.query.frame) = true := by
    rw [List.pairwise_map]
    exact h.imp fun hab => decide_eq_true hab.2.le
  have hsegments :
      ((runs.filterMap MatchedSegment.ofPairs?).map MatchedSegment.swapped).Pairwise
      fun s t => decide (s.query.firstFrame ≤ t.query.firstFrame) = true := by
    rw [List.pairwise_map]
    exact (MatchedSegment.pairwise_firstFrame h).imp fun hst => decide_eq_true hst.2.le
  simp only [MatchResult.swapped, MatchResult.ofRuns, List.mergeSort_of_pairwise hpairs,
    List.mergeSort_of_pairwise hsegments]
  simp only [← List.map_flatten, List.length_map, List.filterMap_map, List.map_filterMap,
    Function.comp_def, MatchedSegment.ofPairs?_map_swapped]

/-- A comparison made the other way round finds the same, read from the other side. -/
theorem matchFingerprints_swap (cfg : MatchConfig) (a b : Fingerprint) :
    matchFingerprints cfg b a = (matchFingerprints cfg a b).swapped := by
  have hframes : (matchedRuns cfg (a.eligible cfg.minQuality)
      (b.eligible cfg.minQuality)).flatten.Pairwise fun s t =>
        s.query.frame < t.query.frame ∧ s.reference.frame < t.reference.frame :=
    pairwise_frame_matchedRuns (a.pairwise_frame_eligible _) (b.pairwise_frame_eligible _)
  have hruns := matchedRuns_swap cfg (a.eligible cfg.minQuality) (b.eligible cfg.minQuality)
  simp only [matchFingerprints, swapped_ofRuns _ _ hframes, hruns]

end VideoFingerprint
