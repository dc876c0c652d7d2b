import VideoFingerprint.Proofs.Matching.Segments
import VideoFingerprint.Proofs.Sorting

/-!
Changing the tolerances of a comparison. Candidates are tried by distance first, so an
alignment with a smaller threshold is the beginning of the alignment with a larger one: pairs
are added, and none is lost. A pair that is added can join runs but not part them. A longer
required run, on the other hand, leaves the alignment as it is and drops the segments that are
too short.
-/

namespace VideoFingerprint

open Candidate

/-! ### Alignments below a distance -/

theorem Candidate.distance_le_of_rank_le {a b : Candidate} (h : a.rank ≤ b.rank) :
    a.distance ≤ b.distance := by
  rcases Prod.Lex.toLex_le_toLex.1 h with hlt | ⟨heq, -⟩
  · exact le_of_lt hlt
  · exact le_of_eq heq

/-- What is taken of the candidates up to a distance does not depend on the
candidates beyond it. -/
theorem IsGreedy.restrict {cs ds : List Candidate} {taken : Set Candidate}
    (h : IsGreedy cs taken) {limit : ℕ} (hmem : ∀ c, c ∈ ds ↔ c ∈ cs ∧ c.distance ≤ limit) :
    IsGreedy ds {c | c ∈ taken ∧ c.distance ≤ limit} where
  subset c hc := (hmem c).2 ⟨h.subset c hc.1, hc.2⟩
  mem_iff c hc := by
    obtain ⟨hcs, hlimit⟩ := (hmem c).1 hc
    have hblocked : ∀ d : Candidate, d.rank = c.rank →
        (Blocked {a | a ∈ taken ∧ a.distance ≤ limit} d ↔ Blocked taken d) := by
      intro d hrank
      refine blocked_congr fun a hlt => and_iff_left ?_
      exact (distance_le_of_rank_le (hlt.trans_eq hrank).le).trans hlimit
    have hgroup : ∀ d : Candidate, d.rank = c.rank → (d ∈ ds ↔ d ∈ cs) := fun d hrank =>
      (hmem d).trans (and_iff_left ((distance_le_of_rank_le hrank.le).trans hlimit))
    have htaken : c ∈ {a | a ∈ taken ∧ a.distance ≤ limit} ↔ c ∈ taken := and_iff_left hlimit
    rw [htaken, h.mem_iff c hcs, hblocked c rfl]
    refine and_congr_right fun _ => forall_congr' fun d => ?_
    constructor
    · intro hall hd hne hrank
      exact (hblocked d hrank).2 (hall ((hgroup d hrank).1 hd) hne hrank)
    · intro hall hd hne hrank
      exact (hblocked d hrank).1 (hall ((hgroup d hrank).2 hd) hne hrank)

variable {cfg cfg' : MatchConfig} {query reference : List Feature}

theorem mem_all_iff_of_threshold_le (h : cfg.threshold ≤ cfg'.threshold) {c : Candidate} :
    c ∈ all cfg query reference ↔ c ∈ all cfg' query reference ∧
      c.distance ≤ cfg.threshold := by
  simp only [mem_all_iff, MatchConfig.within, decide_eq_true_eq]
  constructor
  · rintro ⟨hf, hg, hd, hwithin⟩
    exact ⟨⟨hf, hg, hd, hwithin.trans h⟩, hwithin⟩
  · rintro ⟨⟨hf, hg, hd, -⟩, hwithin⟩
    exact ⟨hf, hg, hd, hwithin⟩

/-- With a smaller threshold, the accepted candidates are those of the larger one that
are within it. -/
theorem mem_acceptedCandidates_iff_of_threshold_le (h : cfg.threshold ≤ cfg'.threshold)
    {c : Candidate} :
    c ∈ acceptedCandidates cfg query reference ↔
      c ∈ acceptedCandidates cfg' query reference ∧ c.distance ≤ cfg.threshold := by
  have hmem : ∀ d, d ∈ all cfg query reference ↔ d ∈ all cfg' query reference ∧
      d.distance ≤ cfg.threshold :=
    fun d => mem_all_iff_of_threshold_le h
  have hrestricted := (isGreedy_acceptedCandidates cfg' query reference).restrict hmem
  exact Set.ext_iff.1 ((isGreedy_acceptedCandidates cfg query reference).unique hrestricted) c

/-- Sorted by their places, accepted candidates are the same list where they
are the same set. -/
theorem acceptedCandidates_eq_of_threshold_eq (h : cfg.threshold = cfg'.threshold) :
    acceptedCandidates cfg query reference = acceptedCandidates cfg' query reference := by
  have : Std.Irrefl fun a b : Candidate => a.p < b.p := ⟨fun a => Nat.lt_irrefl a.p⟩
  have : Std.Antisymm fun a b : Candidate => a.p < b.p :=
    ⟨fun a b hab hba => absurd hab hba.asymm⟩
  refine (pairwise_p_acceptedCandidates cfg query reference).eq_of_mem_iff
    (pairwise_p_acceptedCandidates cfg' query reference) fun {c} =>
      ⟨fun hc => ?_, fun hc => ?_⟩
  · exact ((mem_acceptedCandidates_iff_of_threshold_le h.le).1 hc).1
  · exact ((mem_acceptedCandidates_iff_of_threshold_le h.ge).1 hc).1

/-! ### Runs under a larger threshold -/

/-- Where an accepted candidate continues a run, it belongs to the run. -/
theorem mem_run_of_follows {run : List Candidate} {a b : Candidate}
    (hrun : run ∈ (acceptedCandidates cfg query reference).splitBy follows) (ha : a ∈ run)
    (hb : b ∈ acceptedCandidates cfg query reference) (h : a.follows b = true) : b ∈ run := by
  have hapart := pairwise_splitBy_follows (pairwise_p_acceptedCandidates cfg query reference)
  rw [← List.flatten_splitBy follows (acceptedCandidates cfg query reference)] at hb
  obtain ⟨run', hrun', hb⟩ := List.mem_flatten.1 hb
  by_contra hnot
  have hne : run ≠ run' := fun heq => hnot (heq ▸ hb)
  rcases rel_or_rel_of_pairwise hapart hrun hrun' hne with hbefore | hafter
  · rw [(hbefore a ha b hb).2] at h
    cases h
  · have hlt : b.p < a.p := (hafter b hb a ha).1
    have hnext : b.p = a.p + 1 ∧ b.q = a.q + 1 := of_decide_eq_true h
    omega

/-- A run lies inside a run under every larger threshold. -/
theorem exists_run_of_threshold_le (h : cfg.threshold ≤ cfg'.threshold) {run : List Candidate}
    (hrun : run ∈ (acceptedCandidates cfg query reference).splitBy follows) :
    ∃ run' ∈ (acceptedCandidates cfg' query reference).splitBy follows,
      run ⊆ run' ∧ run.length ≤ run'.length := by
  have haccepted : ∀ c ∈ run, c ∈ acceptedCandidates cfg' query reference := fun c hc =>
    ((mem_acceptedCandidates_iff_of_threshold_le h).1
      (mem_acceptedCandidates_of_mem_run hrun hc)).1
  have hnodup := nodup_of_mem_run hrun
  have hchain : run.IsChain fun a b => a.follows b = true := List.isChain_of_mem_splitBy hrun
  cases run with
  | nil => exact absurd rfl (List.ne_nil_of_mem_splitBy hrun)
  | cons c cs =>
      have hflat := haccepted c List.mem_cons_self
      rw [← List.flatten_splitBy follows (acceptedCandidates cfg' query reference)] at hflat
      obtain ⟨run', hrun', hc⟩ := List.mem_flatten.1 hflat
      have hsubset : c :: cs ⊆ run' := by
        clear hrun hnodup hflat
        induction cs generalizing c with
        | nil => simpa using hc
        | cons d ds ih =>
            obtain ⟨hnext, hrest⟩ := List.isChain_cons_cons.1 hchain
            have hd := mem_run_of_follows hrun' hc (haccepted d (by simp)) hnext
            have htail := ih d (fun x hx => haccepted x (List.mem_cons_of_mem c hx)) hrest hd
            exact List.cons_subset.2 ⟨hc, htail⟩
      exact ⟨run', hrun', hsubset, (List.subperm_of_subset hnodup hsubset).length_le⟩

/-! ### Segments inside segments -/

def Extent.Within (e e' : Extent) : Prop :=
  e'.firstFrame ≤ e.firstFrame ∧ e.lastFrame ≤ e'.lastFrame

namespace MatchedSegment

def Within (s s' : MatchedSegment) : Prop :=
  s.query.Within s'.query ∧ s.reference.Within s'.reference

def holds (s : MatchedSegment) (pair : MatchedPair) : Bool :=
  (s.query.firstFrame ≤ pair.query.frame ∧ pair.query.frame ≤ s.query.lastFrame) ∧
    s.reference.firstFrame ≤ pair.reference.frame ∧
    pair.reference.frame ≤ s.reference.lastFrame

theorem exists_ofPairs? {run : List MatchedPair} {pair : MatchedPair} (h : pair ∈ run) :
    ∃ s, ofPairs? run = some s := by
  have hne := List.ne_nil_of_mem h
  exact ⟨_, ofPairs?_eq_some_iff.2
    ⟨_, _, List.head?_eq_some_head hne, List.getLast?_eq_some_getLast hne, rfl⟩⟩

/-- The segment of rising pairs holds all of them. -/
theorem holds_of_mem {run : List MatchedPair} {s : MatchedSegment}
    (hrising : run.Pairwise fun a b =>
      a.query.frame < b.query.frame ∧ a.reference.frame < b.reference.frame)
    (hs : ofPairs? run = some s) {pair : MatchedPair} (hpair : pair ∈ run) :
    s.holds pair = true := by
  obtain ⟨first, last, hfirst, hlast, rfl⟩ := ofPairs?_eq_some_iff.1 hs
  have hends : ∀ side : MatchedPair → Feature, (run.map side).head? = some (side first) ∧
      (run.map side).getLast? = some (side last) := by
    intro side
    rw [List.head?_map, List.getLast?_map, hfirst, hlast]
    exact ⟨rfl, rfl⟩
  have hquery : (run.map MatchedPair.query).Pairwise fun f g => f.frame < g.frame :=
    List.pairwise_map.2 (hrising.imp And.left)
  have hreference : (run.map MatchedPair.reference).Pairwise fun f g => f.frame < g.frame :=
    List.pairwise_map.2 (hrising.imp And.right)
  exact decide_eq_true
    ⟨frame_between_ends hquery (hends _).1 (hends _).2 (List.mem_map_of_mem hpair),
      frame_between_ends hreference (hends _).1 (hends _).2 (List.mem_map_of_mem hpair)⟩

/-- The segment of pairs that all belong to another run lies inside the segment of that run. -/
theorem within_of_subset {run run' : List MatchedPair} {s s' : MatchedSegment}
    (hrising : run'.Pairwise fun a b =>
      a.query.frame < b.query.frame ∧ a.reference.frame < b.reference.frame)
    (hs : ofPairs? run = some s) (hs' : ofPairs? run' = some s') (hsubset : run ⊆ run') :
    s.Within s' := by
  obtain ⟨first, last, hfirst, hlast, rfl⟩ := ofPairs?_eq_some_iff.1 hs
  have hholds :=
    of_decide_eq_true (holds_of_mem hrising hs' (hsubset (List.mem_of_mem_head? hfirst)))
  have hholds' :=
    of_decide_eq_true (holds_of_mem hrising hs' (hsubset (List.mem_of_mem_getLast? hlast)))
  exact ⟨⟨hholds.1.1, hholds'.1.2⟩, hholds.2.1, hholds'.2.2⟩

end MatchedSegment

/-- The matched runs of a comparison lie inside those with a larger threshold. -/
theorem exists_matchedRun_of_threshold_le (h : cfg.threshold ≤ cfg'.threshold)
    (hrun : cfg.minRun = cfg'.minRun) {run : List MatchedPair}
    (hmem : run ∈ matchedRuns cfg query reference) :
    ∃ run' ∈ matchedRuns cfg' query reference, run ⊆ run' := by
  obtain ⟨cs, hcs, rfl⟩ := List.mem_map.1 hmem
  obtain ⟨hcs, hlong⟩ := List.mem_filter.1 hcs
  obtain ⟨ds, hds, hsubset, hlength⟩ := exists_run_of_threshold_le h hcs
  have hlong' : cfg'.minRun ≤ ds.length := hrun ▸ (of_decide_eq_true hlong).trans hlength
  refine ⟨ds.map toPair,
    List.mem_map_of_mem (List.mem_filter.2 ⟨hds, decide_eq_true hlong'⟩), ?_⟩
  exact List.map_subset toPair hsubset

theorem flatten_matchedRuns_sublist_of_threshold_le (h : cfg.threshold ≤ cfg'.threshold)
    (hrun : cfg.minRun = cfg'.minRun) (hquery : query.Pairwise fun f g => f.frame < g.frame)
    (hreference : reference.Pairwise fun f g => f.frame < g.frame) :
    (matchedRuns cfg query reference).flatten.Sublist
      (matchedRuns cfg' query reference).flatten := by
  have hrising : ∀ cfg : MatchConfig,
      (matchedRuns cfg query reference).flatten.Pairwise fun a b =>
      a.query.frame < b.query.frame := fun cfg =>
    (pairwise_frame_matchedRuns hquery hreference).imp And.left
  have hnodup : (matchedRuns cfg query reference).flatten.Nodup :=
    (hrising cfg).imp fun hab heq => hab.ne (congrArg (fun pair => pair.query.frame) heq)
  have hsubset : (matchedRuns cfg query reference).flatten ⊆
      (matchedRuns cfg' query reference).flatten := by
    intro pair hpair
    obtain ⟨run, hmem, hpair⟩ := List.mem_flatten.1 hpair
    obtain ⟨run', hmem', hsubset⟩ := exists_matchedRun_of_threshold_le h hrun hmem
    exact List.mem_flatten_of_mem hmem' (hsubset hpair)
  have : Std.Antisymm fun a b : MatchedPair => a.query.frame < b.query.frame :=
    ⟨fun a b hab hba => absurd hab hba.asymm⟩
  exact List.sublist_of_subperm_of_pairwise (List.subperm_of_subset hnodup hsubset)
    (hrising cfg) (hrising cfg')

/-- Every segment lies inside a segment of the comparison with a larger threshold. -/
theorem exists_within_of_threshold_le (h : cfg.threshold ≤ cfg'.threshold)
    (hrun : cfg.minRun = cfg'.minRun) (hquery : query.Pairwise fun f g => f.frame < g.frame)
    (hreference : reference.Pairwise fun f g => f.frame < g.frame) {s : MatchedSegment}
    (hs : s ∈ (matchedRuns cfg query reference).filterMap MatchedSegment.ofPairs?) :
    ∃ s' ∈ (matchedRuns cfg' query reference).filterMap MatchedSegment.ofPairs?,
      s.Within s' := by
  obtain ⟨run, hmem, hs⟩ := List.mem_filterMap.1 hs
  obtain ⟨run', hmem', hsubset⟩ := exists_matchedRun_of_threshold_le h hrun hmem
  have hrising :=
    (List.pairwise_flatten.1 (pairwise_frame_matchedRuns hquery hreference)).1 run' hmem'
  obtain ⟨pair, hpair, -⟩ := MatchedSegment.firstFrame_of_ofPairs? hs
  obtain ⟨s', hs'⟩ := MatchedSegment.exists_ofPairs? (hsubset hpair)
  exact ⟨s', List.mem_filterMap.2 ⟨run', hmem', hs'⟩,
    MatchedSegment.within_of_subset hrising hs hs' hsubset⟩

/-! ### Longer required runs -/

/-- A longer required run leaves the longer ones of the runs. -/
theorem matchedRuns_eq_filter (h : cfg.threshold = cfg'.threshold)
    (hrun : cfg.minRun ≤ cfg'.minRun) (query reference : List Feature) :
    matchedRuns cfg' query reference =
      (matchedRuns cfg query reference).filter fun run => cfg'.minRun ≤ run.length := by
  rw [matchedRuns, matchedRuns, acceptedCandidates_eq_of_threshold_eq h, List.filter_map,
    List.filter_filter]
  refine congrArg _ (List.filter_congr fun run _ => ?_)
  simp only [Function.comp_apply, List.length_map]
  by_cases hlong : cfg'.minRun ≤ run.length
  · simp [hlong, hrun.trans hlong]
  · simp [hlong]

/-- The segments of the longer runs are the longer segments. -/
theorem filterMap_filter_length (runs : List (List MatchedPair)) (m : ℕ) :
    (runs.filter fun run => m ≤ run.length).filterMap MatchedSegment.ofPairs? =
      (runs.filterMap MatchedSegment.ofPairs?).filter fun s => m ≤ s.length := by
  rw [List.filterMap_filter, List.filter_filterMap]
  refine List.filterMap_congr fun run _ => ?_
  cases hs : MatchedSegment.ofPairs? run with
  | none => simp
  | some s =>
      obtain ⟨first, last, -, -, rfl⟩ := MatchedSegment.ofPairs?_eq_some_iff.1 hs
      simp [Option.filter]

/-- Choosing lists by what is true of all their members chooses the members. -/
theorem flatten_filter_of_forall {α : Type} {ls : List (List α)} {long : List α → Bool}
    {held : α → Bool} (h : ∀ l ∈ ls, ∀ a ∈ l, held a = long l) :
    (ls.filter long).flatten = ls.flatten.filter held := by
  induction ls with
  | nil => rfl
  | cons l ls ih =>
      have hrest := ih fun l' hl' => h l' (List.mem_cons_of_mem l hl')
      have hhead := h l List.mem_cons_self
      rw [List.flatten_cons, List.filter_append, ← hrest, List.filter_cons]
      cases hlong : long l with
      | false =>
          have hnone : l.filter held = [] :=
            List.filter_eq_nil_iff.2 fun a ha => by simp [hhead a ha, hlong]
          simp [hnone]
      | true =>
          have hall : l.filter held = l :=
            List.filter_eq_self.2 fun a ha => (hhead a ha).trans hlong
          simp [hall]

/-- A segment of one of several runs in order holds the pairs of this run and of no other. -/
theorem MatchedSegment.eq_of_holds {runs : List (List MatchedPair)}
    (h : runs.flatten.Pairwise fun a b =>
      a.query.frame < b.query.frame ∧ a.reference.frame < b.reference.frame)
    {run run' : List MatchedPair} (hrun : run ∈ runs) (hrun' : run' ∈ runs)
    {s : MatchedSegment}
    (hs : ofPairs? run' = some s) {pair : MatchedPair} (hpair : pair ∈ run)
    (hholds : s.holds pair = true) :
    run = run' := by
  obtain ⟨⟨hfrom, hto⟩, -⟩ := of_decide_eq_true hholds
  obtain ⟨first, hfirst, heq, -⟩ := firstFrame_of_ofPairs? hs
  obtain ⟨last, hlast, heq', -⟩ := lastFrame_of_ofPairs? hs
  by_contra hne
  rcases rel_or_rel_of_pairwise (List.pairwise_flatten.1 h).2 hrun hrun' hne with
    hbefore | hafter
  · have hlt := (hbefore pair hpair first hfirst).1
    omega
  · have hlt := (hafter last hlast pair hpair).1
    omega

/-- The pairs of the longer runs are the pairs that their segments hold. -/
theorem flatten_filter_length {runs : List (List MatchedPair)} (m : ℕ)
    (h : runs.flatten.Pairwise fun a b =>
      a.query.frame < b.query.frame ∧ a.reference.frame < b.reference.frame) :
    (runs.filter fun run => m ≤ run.length).flatten = runs.flatten.filter fun pair =>
      ((runs.filterMap MatchedSegment.ofPairs?).filter fun s => m ≤ s.length).any
        (·.holds pair) := by
  refine flatten_filter_of_forall fun run hrun pair hpair => ?_
  rw [Bool.eq_iff_iff, ← filterMap_filter_length, List.any_eq_true, decide_eq_true_eq]
  constructor
  · rintro ⟨s, hs, hholds⟩
    obtain ⟨run', hrun', hs⟩ := List.mem_filterMap.1 hs
    obtain ⟨hrun', hlong⟩ := List.mem_filter.1 hrun'
    rw [MatchedSegment.eq_of_holds h hrun hrun' hs hpair hholds]
    exact of_decide_eq_true hlong
  · intro hlong
    obtain ⟨s, hs⟩ := MatchedSegment.exists_ofPairs? hpair
    have hmem : run ∈ runs.filter fun run => m ≤ run.length :=
      List.mem_filter.2 ⟨hrun, decide_eq_true hlong⟩
    exact ⟨s, List.mem_filterMap.2 ⟨run, hmem, hs⟩,
      MatchedSegment.holds_of_mem ((List.pairwise_flatten.1 h).1 run hrun) hs hpair⟩

/-! ### Both tolerances -/

/-- Comparing with other tolerances. A larger threshold keeps every pair, and every segment
inside a segment, so the scores do not fall; a longer required run keeps exactly the segments
of that length and their pairs. -/
theorem matchFingerprints_tolerance (query reference : Fingerprint) :
    (∀ cfg cfg' : MatchConfig, cfg.minQuality = cfg'.minQuality → cfg.minRun = cfg'.minRun →
      cfg.threshold ≤ cfg'.threshold →
      let r := matchFingerprints cfg query reference
      let r' := matchFingerprints cfg' query reference
      r.pairs.Sublist r'.pairs ∧ (∀ s ∈ r.segments, ∃ s' ∈ r'.segments, s.Within s') ∧
        r.matchedFrames ≤ r'.matchedFrames ∧
        ((∀ f ∈ query.features, f.frame ≤ Text.maxU64) → r.score ≤ r'.score) ∧
        ((∀ f ∈ reference.features, f.frame ≤ Text.maxU64) →
          r.referenceScore ≤ r'.referenceScore)) ∧
    ∀ cfg cfg' : MatchConfig, cfg.minQuality = cfg'.minQuality →
      cfg.threshold = cfg'.threshold → cfg.minRun ≤ cfg'.minRun →
      let r := matchFingerprints cfg query reference
      let r' := matchFingerprints cfg' query reference
      r'.segments = r.segments.filter (fun s => cfg'.minRun ≤ s.length) ∧
        r'.pairs = r.pairs.filter fun pair => r'.segments.any (·.holds pair) := by
  constructor
  · intro cfg cfg' hquality hrun hthreshold r r'
    have hr' :
        r' = .ofRuns (matchedRuns cfg' (query.eligible cfg.minQuality)
          (reference.eligible cfg.minQuality))
        (query.eligible cfg.minQuality).length (reference.eligible cfg.minQuality).length := by
      rw [hquality]
      rfl
    have hquery := query.pairwise_frame_eligible cfg.minQuality
    have hreference := reference.pairwise_frame_eligible cfg.minQuality
    have hpairs :=
      flatten_matchedRuns_sublist_of_threshold_le hthreshold hrun hquery hreference
    obtain ⟨hle, hle'⟩ := length_pairs_le cfg' hquery hreference
    rw [hr']
    refine ⟨hpairs, fun s hs =>
      exists_within_of_threshold_le hthreshold hrun hquery hreference hs,
      hpairs.length_le, fun hwords => ?_, fun hwords => ?_⟩
    · have hlength := query.length_eligible_le hwords cfg.minQuality
      exact coverage_mono hpairs.length_le (hle.trans hlength) hlength
    · have hlength := reference.length_eligible_le hwords cfg.minQuality
      exact coverage_mono hpairs.length_le (hle'.trans hlength) hlength
  · intro cfg cfg' hquality hthreshold hrun r r'
    have hrising : (matchedRuns cfg (query.eligible cfg.minQuality)
        (reference.eligible cfg.minQuality)).flatten.Pairwise fun a b =>
          a.query.frame < b.query.frame ∧ a.reference.frame < b.reference.frame :=
      pairwise_frame_matchedRuns (query.pairwise_frame_eligible _)
        (reference.pairwise_frame_eligible _)
    have hruns := matchedRuns_eq_filter hthreshold hrun (query.eligible cfg.minQuality)
      (reference.eligible cfg.minQuality)
    have hsegments : r'.segments = r.segments.filter fun s => cfg'.minRun ≤ s.length := by
      simp only [r, r', matchFingerprints, MatchResult.ofRuns, ← hquality, hruns,
        filterMap_filter_length]
    refine ⟨hsegments, ?_⟩
    rw [hsegments]
    simp only [r, r', matchFingerprints, MatchResult.ofRuns, ← hquality, hruns]
    exact flatten_filter_length cfg'.minRun hrising

theorem tolerance_stillFrames :
    let loose : MatchConfig := ⟨256, 50, 1, by decide +kernel⟩
    let long : MatchConfig := ⟨31, 50, 2, by decide +kernel⟩
    let r := matchFingerprints .default stillFrames stillFrames
    let rLoose := matchFingerprints loose stillFrames stillFrames
    let rLong := matchFingerprints long stillFrames stillFrames
    (r.pairs.Sublist rLoose.pairs ∧ r.score ≤ rLoose.score ∧
      r.referenceScore ≤ rLoose.referenceScore) ∧
      rLong.segments = r.segments.filter (fun s => 2 ≤ s.length) ∧
      rLong.pairs = r.pairs.filter fun pair => rLong.segments.any (·.holds pair) := by
  intro loose long r rLoose rLong
  obtain ⟨hthreshold, hrun⟩ := matchFingerprints_tolerance stillFrames stillFrames
  have hwords : ∀ f ∈ stillFrames.features, f.frame ≤ Text.maxU64 := by decide
  obtain ⟨hpairs, -, -, hscore, hscore'⟩ := hthreshold .default loose rfl rfl (by decide)
  exact ⟨⟨hpairs, hscore hwords, hscore' hwords⟩, hrun .default long rfl rfl (by decide)⟩

end VideoFingerprint
