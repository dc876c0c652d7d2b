import Mathlib.Data.List.Perm.Subperm
import VideoFingerprint.Proofs.Matching.Coverage
import VideoFingerprint.Proofs.Matching.Runs
import VideoFingerprint.Text.Integer

/-!
The shape of a result. The pairs of a result are the pairs of its segments, one segment after
the other; a segment covers every eligible frame between its two ends, on both sides, and stops
only where the alignment leaves out a frame on one of them.
-/

namespace VideoFingerprint

open Candidate

/-! ### Runs of candidates -/

theorem eq_or_lt_getLast {cs : List Candidate} (h : cs.Pairwise fun a b => a.p < b.p)
    {a : Candidate} (ha : a ∈ cs) (hne : cs ≠ []) :
    a = cs.getLast hne ∨ a.p < (cs.getLast hne).p :=
  (h.imp (S := fun a b => a = b ∨ a.p < b.p) Or.inr).rel_getLast_of_rel_getLast_getLast ha
    (Or.inl rfl)

theorem eq_or_head_lt {cs : List Candidate} (h : cs.Pairwise fun a b => a.p < b.p)
    {a : Candidate} (ha : a ∈ cs) (hne : cs ≠ []) : cs.head hne = a ∨ (cs.head hne).p < a.p :=
  (h.imp (S := fun a b => a = b ∨ a.p < b.p) Or.inr).rel_head_of_rel_head_head ha (Or.inl rfl)

/-- Where places rise, a later run comes after an earlier one and does not go on with it. -/
theorem pairwise_splitBy_follows {cs : List Candidate} (h : cs.Pairwise fun a b => a.p < b.p) :
    (cs.splitBy follows).Pairwise fun run run' =>
      ∀ a ∈ run, ∀ b ∈ run', a.p < b.p ∧ a.follows b = false := by
  have hchain := List.isChain_getLast_head_splitBy follows cs
  rw [← List.flatten_splitBy follows cs] at h
  generalize cs.splitBy follows = runs at h hchain
  induction runs with
  | nil => exact List.Pairwise.nil
  | cons run runs ih =>
      rw [List.flatten_cons, List.pairwise_append] at h
      obtain ⟨hrun, hrest, hacross⟩ := h
      refine List.pairwise_cons.2 ⟨?_, ih hrest hchain.tail⟩
      intro run' hrun' a ha b hb
      have hb' : b ∈ runs.flatten := List.mem_flatten_of_mem hrun' hb
      refine ⟨hacross a ha b hb', ?_⟩
      cases runs with
      | nil => cases hrun'
      | cons next runs =>
          obtain ⟨hne, hnext, hbreak⟩ := hchain.rel
          have hflat : (next :: runs).flatten ≠ [] := List.ne_nil_of_mem hb'
          have hhead : (next :: runs).flatten.head hflat = next.head hnext := by
            simp [List.head_append_of_ne_nil hnext]
          have hlast := eq_or_lt_getLast hrun ha hne
          have hfirst := eq_or_head_lt hrest hb' hflat
          have hjump := hacross _ (List.getLast_mem hne) _ (List.head_mem hflat)
          rw [hhead] at hfirst hjump
          rw [Bool.eq_false_iff]
          intro hfollows
          have hnear : b.p = a.p + 1 ∧ b.q = a.q + 1 := by simpa [follows] using hfollows
          rcases hlast with hlast | hlast
          · rcases hfirst with hfirst | hfirst
            · rw [← hlast, hfirst, hfollows] at hbreak
              cases hbreak
            · rw [← hlast] at hjump
              omega
          · rcases hfirst with hfirst | hfirst
            · rw [hfirst] at hjump
              omega
            · omega

/-- A run that goes on place by place is a stretch of the frames it is made of. -/
theorem map_isInfix_of_isChain {fs : List Feature} {place : Candidate → ℕ}
    {frame : Candidate → Feature} {run : List Candidate}
    (hchain : run.IsChain fun a b => place b = place a + 1)
    (hframe : ∀ x ∈ run, fs[place x]? = some (frame x)) : run.map frame <:+: fs := by
  cases run with
  | nil => exact List.nil_infix
  | cons c cs =>
      have hdrop : ∀ x ∈ c :: cs, fs.drop (place x) = frame x :: fs.drop (place x + 1) := by
        intro x hx
        obtain ⟨hlt, heq⟩ := List.getElem?_eq_some_iff.1 (hframe x hx)
        rw [List.drop_eq_getElem_cons hlt, heq]
      have hpre : (c :: cs).map frame <+: fs.drop (place c) := by
        clear hframe
        induction cs generalizing c with
        | nil => simp [hdrop c List.mem_cons_self]
        | cons d cs ih =>
            obtain ⟨hnext, hrest⟩ := List.isChain_cons_cons.1 hchain
            have htail := ih d hrest fun x hx => hdrop x (List.mem_cons_of_mem c hx)
            rw [List.map_cons, hdrop c List.mem_cons_self, ← hnext]
            exact (List.prefix_cons_inj _).2 htail
      exact hpre.isInfix.trans (List.drop_suffix _ _).isInfix

/-! ### Stretches of frames -/

/-- The frames of a list that lie in an extent, its ends included. -/
def Extent.frames (e : Extent) (fs : List Feature) : List Feature :=
  fs.filter fun f => e.firstFrame ≤ f.frame ∧ f.frame ≤ e.lastFrame

theorem Extent.frames_append (e : Extent) (fs gs : List Feature) :
    e.frames (fs ++ gs) = e.frames fs ++ e.frames gs :=
  List.filter_append ..

theorem frame_between_ends {run : List Feature} (h : run.Pairwise fun f g => f.frame < g.frame)
    {first last : Feature} (hfirst : run.head? = some first) (hlast : run.getLast? = some last)
    {f : Feature} (hf : f ∈ run) : first.frame ≤ f.frame ∧ f.frame ≤ last.frame := by
  constructor
  · obtain ⟨rest, rfl⟩ := List.head?_eq_some_iff.1 hfirst
    rcases List.mem_cons.1 hf with rfl | hf
    · exact le_rfl
    · exact ((List.pairwise_cons.1 h).1 f hf).le
  · obtain ⟨rest, rfl⟩ := List.getLast?_eq_some_iff.1 hlast
    rcases List.mem_append.1 hf with hf | hf
    · exact ((List.pairwise_append.1 h).2.2 f hf last List.mem_cons_self).le
    · rw [List.mem_singleton.1 hf]

/-- Where frame numbers rise, the extent of a stretch holds the frames of the stretch
and no others. -/
theorem Extent.frames_between {fs run : List Feature}
    (h : fs.Pairwise fun f g => f.frame < g.frame) (hrun : run <:+: fs) {first last : Feature}
    (hfirst : run.head? = some first) (hlast : run.getLast? = some last) :
    (Extent.between first last).frames fs = run := by
  obtain ⟨before, after, rfl⟩ := hrun
  rw [List.pairwise_append, List.pairwise_append] at h
  obtain ⟨⟨-, hinside, hbefore⟩, -, hafter⟩ := h
  have hleft : (Extent.between first last).frames before = [] := by
    refine List.filter_eq_nil_iff.2 fun f hf hin => ?_
    have hlt : f.frame < first.frame := hbefore f hf first (List.mem_of_mem_head? hfirst)
    exact hlt.not_ge (of_decide_eq_true hin).1
  have hright : (Extent.between first last).frames after = [] := by
    refine List.filter_eq_nil_iff.2 fun f hf hin => ?_
    have hlt : last.frame < f.frame :=
      hafter last (List.mem_append_right before (List.mem_of_mem_getLast? hlast)) f hf
    exact hlt.not_ge (of_decide_eq_true hin).2
  have hmiddle : (Extent.between first last).frames run = run := by
    refine List.filter_eq_self.2 fun f hf => ?_
    exact decide_eq_true (frame_between_ends hinside hfirst hlast hf)
  rw [frames_append, frames_append, hleft, hmiddle, hright, List.nil_append, List.append_nil]

/-! ### Segments and their runs -/

def Adjacent (fs : List Feature) (frame next : ℕ) : Prop :=
  ∃ i, fs[i]?.map Feature.frame = some frame ∧ fs[i + 1]?.map Feature.frame = some next

/-- Where frame numbers rise, a number stands in one place only. -/
theorem place_eq_of_frame_eq {fs : List Feature} (h : fs.Pairwise fun f g => f.frame < g.frame)
    {i j : ℕ} {f : Feature} (hi : fs[i]? = some f)
    (hj : fs[j]?.map Feature.frame = some f.frame) : j = i := by
  obtain ⟨g, hj, hframe⟩ := Option.map_eq_some_iff.1 hj
  rcases Nat.lt_trichotomy i j with hlt | heq | hgt
  · exact absurd (frame_lt_of_lt h hi hj hlt) (by omega)
  · exact heq.symm
  · exact absurd (frame_lt_of_lt h hj hi hgt) (by omega)

namespace MatchedSegment

/-- A segment describes a run of pairs when it has the length and the two ends of the run, and
when the frames of the run are all frames between the ends, on both sides. -/
structure Describes (s : MatchedSegment) (query reference : List Feature)
    (run : List MatchedPair) : Prop where
  length_eq : s.length = run.length
  ends : ∃ first last, run.head? = some first ∧ run.getLast? = some last ∧
    s.query = .between first.query last.query ∧
    s.reference = .between first.reference last.reference
  query_frames : s.query.frames query = run.map MatchedPair.query
  reference_frames : s.reference.frames reference = run.map MatchedPair.reference

def Continues (query reference : List Feature) (s t : MatchedSegment) : Prop :=
  Adjacent query s.query.lastFrame t.query.firstFrame ∧
    Adjacent reference s.reference.lastFrame t.reference.firstFrame

theorem lastFrame_of_ofPairs? {run : List MatchedPair} {s : MatchedSegment}
    (h : ofPairs? run = some s) :
    ∃ pair ∈ run, s.query.lastFrame = pair.query.frame ∧
      s.reference.lastFrame = pair.reference.frame := by
  obtain ⟨first, last, -, hlast, rfl⟩ := ofPairs?_eq_some_iff.1 h
  exact ⟨last, List.mem_of_mem_getLast? hlast, rfl, rfl⟩

end MatchedSegment

section Runs

variable {cfg : MatchConfig} {query reference : List Feature} {run : List Candidate}

theorem mem_acceptedCandidates_of_mem_run
    (hrun : run ∈ (acceptedCandidates cfg query reference).splitBy follows) {c : Candidate}
    (hc : c ∈ run) :
    c ∈ acceptedCandidates cfg query reference := by
  rw [← List.flatten_splitBy follows (acceptedCandidates cfg query reference)]
  exact List.mem_flatten_of_mem hrun hc

theorem pairwise_p_acceptedCandidates (cfg : MatchConfig) (query reference : List Feature) :
    (acceptedCandidates cfg query reference).Pairwise fun a b => a.p < b.p :=
  (pairwise_acceptedCandidates cfg query reference).imp And.left

theorem nodup_of_mem_run
    (hrun : run ∈ (acceptedCandidates cfg query reference).splitBy follows) :
    run.Nodup := by
  have hrising := pairwise_p_acceptedCandidates cfg query reference
  rw [← List.flatten_splitBy follows (acceptedCandidates cfg query reference)] at hrising
  exact ((List.pairwise_flatten.1 hrising).1 run hrun).imp fun hab heq =>
    hab.ne (congrArg Candidate.p heq)

/-- A run of accepted candidates is a stretch of the frames of either side. -/
theorem isInfix_of_mem_run
    (hrun : run ∈ (acceptedCandidates cfg query reference).splitBy follows) :
    run.map Candidate.query <:+: query ∧ run.map Candidate.reference <:+: reference := by
  have hchain : run.IsChain fun a b => b.p = a.p + 1 ∧ b.q = a.q + 1 :=
    (List.isChain_of_mem_splitBy hrun).imp fun a b hab => of_decide_eq_true hab
  have hmem : ∀ c ∈ run, c ∈ all cfg query reference := fun c hc =>
    mem_all_of_mem_acceptedCandidates (mem_acceptedCandidates_of_mem_run hrun hc)
  constructor
  · exact map_isInfix_of_isChain (hchain.imp fun a b => And.left) fun c hc =>
      (mem_all_iff.1 (hmem c hc)).1
  · exact map_isInfix_of_isChain (hchain.imp fun a b => And.right) fun c hc =>
      (mem_all_iff.1 (hmem c hc)).2.1

/-- Every run of accepted candidates has a segment that describes it. -/
theorem exists_describes_of_mem_run (hquery : query.Pairwise fun f g => f.frame < g.frame)
    (hreference : reference.Pairwise fun f g => f.frame < g.frame)
    (hrun : run ∈ (acceptedCandidates cfg query reference).splitBy follows) :
    ∃ s, MatchedSegment.ofPairs? (run.map toPair) = some s ∧
      s.Describes query reference (run.map toPair) := by
  obtain ⟨hstretch, hstretch'⟩ := isInfix_of_mem_run hrun
  have hne := List.ne_nil_of_mem_splitBy hrun
  have hhead : run.head? = some (run.head hne) := List.head?_eq_some_head hne
  have hlast : run.getLast? = some (run.getLast hne) := List.getLast?_eq_some_getLast hne
  have hends : (run.map toPair).head? = some (run.head hne).toPair ∧
      (run.map toPair).getLast? = some (run.getLast hne).toPair := by
    rw [List.head?_map, List.getLast?_map, hhead, hlast]
    exact ⟨rfl, rfl⟩
  refine ⟨_, MatchedSegment.ofPairs?_eq_some_iff.2 ⟨_, _, hends.1, hends.2, rfl⟩, rfl,
    ⟨_, _, hends.1, hends.2, rfl, rfl⟩, ?_, ?_⟩
  · rw [List.map_map]
    refine Extent.frames_between hquery hstretch ?_ ?_
    · rw [List.head?_map, hhead]
      rfl
    · rw [List.getLast?_map, hlast]
      rfl
  · rw [List.map_map]
    refine Extent.frames_between hreference hstretch' ?_ ?_
    · rw [List.head?_map, hhead]
      rfl
    · rw [List.getLast?_map, hlast]
      rfl

/-- Candidates whose frames stand next to each other on both sides follow one another. -/
theorem follows_of_adjacent (hquery : query.Pairwise fun f g => f.frame < g.frame)
    (hreference : reference.Pairwise fun f g => f.frame < g.frame) {a b : Candidate}
    (ha : a ∈ all cfg query reference) (hb : b ∈ all cfg query reference)
    (h : Adjacent query a.query.frame b.query.frame)
    (h' : Adjacent reference a.reference.frame b.reference.frame) : a.follows b = true := by
  obtain ⟨hap, haq, -⟩ := mem_all_iff.1 ha
  obtain ⟨hbp, hbq, -⟩ := mem_all_iff.1 hb
  obtain ⟨i, hi, hi'⟩ := h
  obtain ⟨j, hj, hj'⟩ := h'
  have hp : i = a.p := place_eq_of_frame_eq hquery hap hi
  have hp' : i + 1 = b.p := place_eq_of_frame_eq hquery hbp hi'
  have hq : j = a.q := place_eq_of_frame_eq hreference haq hj
  have hq' : j + 1 = b.q := place_eq_of_frame_eq hreference hbq hj'
  exact decide_eq_true ⟨by omega, by omega⟩

/-- No segment goes on where an earlier one ends. -/
theorem pairwise_not_continues (hquery : query.Pairwise fun f g => f.frame < g.frame)
    (hreference : reference.Pairwise fun f g => f.frame < g.frame) :
    ((matchedRuns cfg query reference).filterMap MatchedSegment.ofPairs?).Pairwise fun s t =>
      ¬ MatchedSegment.Continues query reference s t := by
  rw [List.pairwise_filterMap, matchedRuns, List.pairwise_map]
  have hrising := pairwise_p_acceptedCandidates cfg query reference
  refine ((pairwise_splitBy_follows hrising).sublist List.filter_sublist).imp_of_mem ?_
  intro run run' hrun hrun' hapart s hs t ht hcontinues
  obtain ⟨pair, hpair, hlast, hlast'⟩ := MatchedSegment.lastFrame_of_ofPairs? hs
  obtain ⟨pair', hpair', hfirst, hfirst'⟩ := MatchedSegment.firstFrame_of_ofPairs? ht
  obtain ⟨a, ha, rfl⟩ := List.mem_map.1 hpair
  obtain ⟨b, hb, rfl⟩ := List.mem_map.1 hpair'
  have hmem := mem_acceptedCandidates_of_mem_run (List.mem_of_mem_filter hrun) ha
  have hmem' := mem_acceptedCandidates_of_mem_run (List.mem_of_mem_filter hrun') hb
  obtain ⟨hadjacent, hadjacent'⟩ := hcontinues
  rw [hlast, hfirst] at hadjacent
  rw [hlast', hfirst'] at hadjacent'
  have hfollows :=
    follows_of_adjacent hquery hreference (mem_all_of_mem_acceptedCandidates hmem)
    (mem_all_of_mem_acceptedCandidates hmem') hadjacent hadjacent'
  rw [(hapart a ha b hb).2] at hfollows
  cases hfollows

/-- The runs of a comparison and the segments that describe them. -/
theorem forall₂_describes (hquery : query.Pairwise fun f g => f.frame < g.frame)
    (hreference : reference.Pairwise fun f g => f.frame < g.frame) :
    List.Forall₂ (fun s run => s.Describes query reference run ∧ cfg.minRun ≤ s.length)
      ((matchedRuns cfg query reference).filterMap MatchedSegment.ofPairs?)
        (matchedRuns cfg query reference) := by
  have hdescribed : ∀ run ∈ matchedRuns cfg query reference, ∃ s,
      MatchedSegment.ofPairs? run = some s ∧
      s.Describes query reference run ∧ cfg.minRun ≤ s.length := by
    intro run hrun
    obtain ⟨cs, hcs, rfl⟩ := List.mem_map.1 hrun
    obtain ⟨hcs, hlong⟩ := List.mem_filter.1 hcs
    obtain ⟨s, hs, hdescribes⟩ := exists_describes_of_mem_run hquery hreference hcs
    refine ⟨s, hs, hdescribes, ?_⟩
    rw [hdescribes.length_eq, List.length_map]
    exact of_decide_eq_true hlong
  generalize matchedRuns cfg query reference = runs at hdescribed
  induction runs with
  | nil => exact List.Forall₂.nil
  | cons run runs ih =>
      obtain ⟨s, hs, hdescribes⟩ := hdescribed run List.mem_cons_self
      rw [List.filterMap_cons_some hs]
      exact List.Forall₂.cons hdescribes
        (ih fun run' hrun' => hdescribed run' (List.mem_cons_of_mem run hrun'))

/-- A pair of a result is a candidate of the comparison. -/
theorem exists_candidate_of_mem_pairs {pair : MatchedPair}
    (hpair : pair ∈ (matchedRuns cfg query reference).flatten) :
    ∃ c ∈ all cfg query reference, c.toPair = pair := by
  obtain ⟨c, hc, rfl⟩ :=
    List.mem_map.1 ((flatten_matchedRuns_sublist cfg query reference).subset hpair)
  exact ⟨c, mem_all_of_mem_acceptedCandidates hc, rfl⟩

end Runs

/-! ### Counting frames -/

/-- Frames that rise and all stand in a list are no more than the list has. -/
theorem length_le_of_rising {fs gs : List Feature}
    (h : fs.Pairwise fun f g => f.frame < g.frame) (hsubset : fs ⊆ gs) :
    fs.length ≤ gs.length := by
  have hnodup : fs.Nodup := h.imp fun hfg heq => absurd (congrArg Feature.frame heq) hfg.ne
  exact (List.subperm_of_subset hnodup hsubset).length_le

theorem length_pairs_le (cfg : MatchConfig) {query reference : List Feature}
    (hquery : query.Pairwise fun f g => f.frame < g.frame)
    (hreference : reference.Pairwise fun f g => f.frame < g.frame) :
    (matchedRuns cfg query reference).flatten.length ≤ query.length ∧
      (matchedRuns cfg query reference).flatten.length ≤ reference.length := by
  have hrising : (matchedRuns cfg query reference).flatten.Pairwise fun a b =>
      a.query.frame < b.query.frame ∧ a.reference.frame < b.reference.frame :=
    pairwise_frame_matchedRuns hquery hreference
  constructor
  · rw [← List.length_map MatchedPair.query]
    refine length_le_of_rising (List.pairwise_map.2 (hrising.imp And.left)) fun f hf => ?_
    obtain ⟨pair, hpair, rfl⟩ := List.mem_map.1 hf
    obtain ⟨c, hc, rfl⟩ := exists_candidate_of_mem_pairs hpair
    exact List.mem_of_getElem? (mem_all_iff.1 hc).1
  · rw [← List.length_map MatchedPair.reference]
    refine length_le_of_rising (List.pairwise_map.2 (hrising.imp And.right)) fun f hf => ?_
    obtain ⟨pair, hpair, rfl⟩ := List.mem_map.1 hf
    obtain ⟨c, hc, rfl⟩ := exists_candidate_of_mem_pairs hpair
    exact List.mem_of_getElem? (mem_all_iff.1 hc).2.1

/-- A fingerprint whose frame numbers fit a machine word has no more frames than there
are such numbers. -/
theorem Fingerprint.length_eligible_le (p : Fingerprint)
    (h : ∀ f ∈ p.features, f.frame ≤ Text.maxU64) (minQuality : Float) :
    (p.eligible minQuality).length ≤ 2 ^ 64 := by
  have hnodup : ((p.eligible minQuality).map Feature.frame).Nodup :=
    List.pairwise_map.2 ((p.pairwise_frame_eligible minQuality).imp ne_of_lt)
  have hsubset : (p.eligible minQuality).map Feature.frame ⊆ List.range (2 ^ 64) := by
    intro n hn
    obtain ⟨f, hf, rfl⟩ := List.mem_map.1 hn
    exact List.mem_range.2 (Nat.lt_succ_of_le (h f (List.mem_of_mem_filter hf)))
  have hlength := (List.subperm_of_subset hnodup hsubset).length_le
  rwa [List.length_map, List.length_range] at hlength

/-! ### The whole result -/

/-- The shape of every result. Its pairs rise on both sides and join eligible frames within the
threshold; they are the pairs of the segments, one after the other; segments are long enough,
leave out no eligible frame and never go on where an earlier one ends; and the scores are the
parts of the eligible frames that have a pair. -/
theorem matchFingerprints_shape (cfg : MatchConfig) (query reference : Fingerprint) :
    let r := matchFingerprints cfg query reference
    let queryFrames := query.eligible cfg.minQuality
    let referenceFrames := reference.eligible cfg.minQuality
    (r.pairs.Pairwise fun a b => a.query.frame < b.query.frame ∧
      a.reference.frame < b.reference.frame) ∧
    (∀ pair ∈ r.pairs, (pair.query ∈ query.features ∧ cfg.minQuality ≤ pair.query.quality) ∧
      (pair.reference ∈ reference.features ∧ cfg.minQuality ≤ pair.reference.quality) ∧
      pair.distance = pair.query.hash.distance pair.reference.hash ∧
      pair.distance ≤ cfg.threshold) ∧
    (∃ runs, r.pairs = runs.flatten ∧ r.segments.Forall₂ (fun s run =>
      s.Describes queryFrames referenceFrames run ∧ cfg.minRun ≤ s.length) runs) ∧
    (r.segments.Pairwise fun s t => ¬ s.Continues queryFrames referenceFrames t) ∧
    (r.eligibleQuery = query.features.countP (fun f => cfg.minQuality ≤ f.quality) ∧
      r.eligibleReference = reference.features.countP (fun f => cfg.minQuality ≤ f.quality)) ∧
    (r.score =
      if r.eligibleQuery = 0 then 0
      else Float.ofNat r.pairs.length / Float.ofNat r.eligibleQuery) ∧
    (r.referenceScore =
      if r.eligibleReference = 0 then 0
      else Float.ofNat r.pairs.length / Float.ofNat r.eligibleReference) ∧
    ((∀ f ∈ query.features, f.frame ≤ Text.maxU64) → 0 ≤ r.score ∧ r.score ≤ 1) ∧
    ((∀ f ∈ reference.features, f.frame ≤ Text.maxU64) →
      0 ≤ r.referenceScore ∧ r.referenceScore ≤ 1) := by
  intro r queryFrames referenceFrames
  have hquery : queryFrames.Pairwise fun f g => f.frame < g.frame :=
    query.pairwise_frame_eligible _
  have hreference : referenceFrames.Pairwise fun f g => f.frame < g.frame :=
    reference.pairwise_frame_eligible _
  obtain ⟨hle, hle'⟩ := length_pairs_le cfg hquery hreference
  refine ⟨pairwise_frame_matchedRuns hquery hreference, fun pair hpair => ?_,
    ⟨matchedRuns cfg queryFrames referenceFrames, rfl, forall₂_describes hquery hreference⟩,
    pairwise_not_continues hquery hreference, ⟨?_, ?_⟩, rfl, rfl,
    fun hwords => ?_, fun hwords => ?_⟩
  · obtain ⟨c, hc, rfl⟩ := exists_candidate_of_mem_pairs hpair
    obtain ⟨hf, hg, hd, hwithin⟩ := mem_all_iff.1 hc
    obtain ⟨hmem, hgood⟩ := List.mem_filter.1 (List.mem_of_getElem? hf)
    obtain ⟨hmem', hgood'⟩ := List.mem_filter.1 (List.mem_of_getElem? hg)
    exact ⟨⟨hmem, of_decide_eq_true hgood⟩, ⟨hmem', of_decide_eq_true hgood'⟩, hd,
      of_decide_eq_true hwithin⟩
  · exact List.countP_eq_length_filter.symm
  · exact List.countP_eq_length_filter.symm
  · exact coverage_nonneg_and_le_one hle (query.length_eligible_le hwords _)
  · exact coverage_nonneg_and_le_one hle' (reference.length_eligible_le hwords _)

theorem score_stillFrames :
    let r := matchFingerprints .default stillFrames stillFrames
    (∀ f ∈ stillFrames.features, f.frame ≤ Text.maxU64) ∧ (0 ≤ r.score ∧ r.score ≤ 1) ∧
      0 ≤ r.referenceScore ∧ r.referenceScore ≤ 1 := by
  intro r
  have hwords : ∀ f ∈ stillFrames.features, f.frame ≤ Text.maxU64 := by decide
  obtain ⟨-, -, -, -, -, -, -, hscore, hscore'⟩ :=
    matchFingerprints_shape .default stillFrames stillFrames
  exact ⟨hwords, hscore hwords, hscore' hwords⟩

end VideoFingerprint
