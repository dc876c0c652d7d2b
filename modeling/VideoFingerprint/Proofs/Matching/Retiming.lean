import VideoFingerprint.Proofs.Matching.Runs

/-!
Times do not count. A comparison looks at frame numbers, hashes and qualities; times are only
copied into what it reports. So where frames get other times, the same frames are aligned, and
the result is the old one with the other times.
-/

namespace VideoFingerprint

variable (h : Float → Float)

/-! ### Other times -/

def Feature.retimed (f : Feature) : Feature := { f with time := h f.time }

@[simp] theorem Feature.hash_retimed (f : Feature) : (f.retimed h).hash = f.hash := rfl

/-- A fingerprint of the same frames at other times. -/
def Fingerprint.IsRetimed (p p' : Fingerprint) : Prop :=
  p'.features = p.features.map (Feature.retimed h)

def Candidate.retimed (c : Candidate) : Candidate :=
  { c with query := c.query.retimed h, reference := c.reference.retimed h }

def MatchedPair.retimed (p : MatchedPair) : MatchedPair :=
  { p with query := p.query.retimed h, reference := p.reference.retimed h }

def Extent.retimed (e : Extent) : Extent :=
  { e with firstTime := h e.firstTime, lastTime := h e.lastTime }

def MatchedSegment.retimed (s : MatchedSegment) : MatchedSegment :=
  { s with query := s.query.retimed h, reference := s.reference.retimed h }

def MatchResult.retimed (r : MatchResult) : MatchResult :=
  { r with
    pairs := r.pairs.map (MatchedPair.retimed h)
    segments := r.segments.map (MatchedSegment.retimed h) }

/-! ### The alignment -/

open Candidate

section Alignment

variable (cfg : MatchConfig) (query reference : List Feature)

theorem all_retimed :
    all cfg (query.map (Feature.retimed h)) (reference.map (Feature.retimed h)) =
      (all cfg query reference).map (Candidate.retimed h) := by
  simp only [all, List.zipIdx_map, List.flatMap_map, List.filterMap_map, List.map_flatMap,
    List.map_filterMap]
  refine List.flatMap_congr fun f _ => List.filterMap_congr fun g _ => ?_
  simp only [Function.comp_apply, Prod.map, id, Feature.hash_retimed, Option.map_if]
  rfl

theorem rankedCandidates_retimed :
    rankedCandidates cfg (query.map (Feature.retimed h)) (reference.map (Feature.retimed h)) =
      (rankedCandidates cfg query reference).map (Candidate.retimed h) := by
  rw [rankedCandidates, rankedCandidates, all_retimed,
    List.map_mergeSort (f := Candidate.retimed h) (r := sortsBefore) (s := sortsBefore)
      fun _ _ _ _ => rfl]

theorem extend_retimed (chain : Chain) (rank : List Candidate) :
    chain.extend (rank.map (Candidate.retimed h)) = chain.extend rank := by
  have hviable : (rank.map (Candidate.retimed h)).filter (fun x => chain.viable x.p x.q) =
      (rank.filter fun x => chain.viable x.p x.q).map (Candidate.retimed h) := List.filter_map
  rw [Chain.extend, Chain.extend, hviable]
  generalize rank.filter (fun x => chain.viable x.p x.q) = fitting
  rcases fitting with _ | ⟨a, _ | ⟨b, rest⟩⟩ <;> rfl

theorem ofSorted_retimed (count : ℕ) (sorted : List Candidate) :
    Chain.ofSorted count (sorted.map (Candidate.retimed h)) = Chain.ofSorted count sorted := by
  have hranks : (sorted.map (Candidate.retimed h)).splitBy sameRank =
      (sorted.splitBy sameRank).map (List.map (Candidate.retimed h)) :=
    splitBy_map (fun _ _ => rfl) sorted
  rw [Chain.ofSorted, Chain.ofSorted, hranks, List.foldl_map]
  simp only [extend_retimed]

theorem acceptedCandidates_retimed :
    acceptedCandidates cfg (query.map (Feature.retimed h))
      (reference.map (Feature.retimed h)) =
      (acceptedCandidates cfg query reference).map (Candidate.retimed h) := by
  simp only [acceptedCandidates, rankedCandidates_retimed, ofSorted_retimed, List.length_map,
    List.filter_map]
  exact (List.map_mergeSort (f := Candidate.retimed h) (s := fun a b => a.p ≤ b.p)
    fun _ _ _ _ => rfl).symm

theorem matchedRuns_retimed :
    matchedRuns cfg (query.map (Feature.retimed h)) (reference.map (Feature.retimed h)) =
      (matchedRuns cfg query reference).map (List.map (MatchedPair.retimed h)) := by
  have hruns :
      ((acceptedCandidates cfg query reference).map (Candidate.retimed h)).splitBy follows =
      ((acceptedCandidates cfg query reference).splitBy follows).map
        (List.map (Candidate.retimed h)) :=
    splitBy_map (fun _ _ => rfl) (acceptedCandidates cfg query reference)
  simp only [matchedRuns, acceptedCandidates_retimed, hruns, List.filter_map, List.map_map,
    Function.comp_def, List.length_map]
  rfl

end Alignment

/-! ### Results -/

@[simp] theorem MatchResult.isMatch_retimed (r : MatchResult) :
    (r.retimed h).isMatch = r.isMatch := by
  rw [isMatch, isMatch, retimed, List.isEmpty_map]

theorem MatchedSegment.ofPairs?_map_retimed (run : List MatchedPair) :
    ofPairs? (run.map (MatchedPair.retimed h)) =
      (ofPairs? run).map (MatchedSegment.retimed h) := by
  unfold ofPairs?
  rw [List.head?_map, List.getLast?_map, List.length_map]
  cases run.head? with
  | none => rfl
  | some first =>
      cases run.getLast? with
      | none => rfl
      | some last => rfl

theorem ofRuns_retimed (runs : List (List MatchedPair)) (m n : ℕ) :
    MatchResult.ofRuns (runs.map (List.map (MatchedPair.retimed h))) m n =
      (MatchResult.ofRuns runs m n).retimed h := by
  simp only [MatchResult.ofRuns, MatchResult.retimed, ← List.map_flatten, List.length_map,
    List.filterMap_map, List.map_filterMap, Function.comp_def,
    MatchedSegment.ofPairs?_map_retimed]

variable {h} {p p' q q' : Fingerprint}

namespace Fingerprint.IsRetimed

theorem size_eq (hp : p.IsRetimed h p') : p'.size = p.size := by
  rw [size, hp, List.length_map]
  rfl

theorem eligible_eq (hp : p.IsRetimed h p') (minQuality : Float) :
    p'.eligible minQuality = (p.eligible minQuality).map (Feature.retimed h) := by
  rw [eligible, hp, List.filter_map]
  rfl

end Fingerprint.IsRetimed

/-- A comparison of the same frames at other times finds the same, at the other times. -/
theorem matchFingerprints_retimed (hp : p.IsRetimed h p') (hq : q.IsRetimed h q')
    (cfg : MatchConfig) :
    matchFingerprints cfg p' q' = (matchFingerprints cfg p q).retimed h := by
  simp only [matchFingerprints, hp.eligible_eq, hq.eligible_eq, matchedRuns_retimed,
    ofRuns_retimed, List.length_map]

/-- Comparing line by line reports no times at all. -/
theorem matchByLine_retimed (hp : p.IsRetimed h p') (hq : q.IsRetimed h q')
    (cfg : MatchConfig) :
    matchByLine cfg p' q' = matchByLine cfg p q := by
  rw [matchByLine, matchByLine, hp.size_eq, hq.size_eq, hp, hq, List.zip_map]
  simp only [List.filter_map, List.length_map, Function.comp_def, Prod.map,
    Feature.hash_retimed]
  rfl

end VideoFingerprint
