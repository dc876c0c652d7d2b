import VideoFingerprint.Proofs.Fingerprint.Order
import VideoFingerprint.Proofs.Matching.Alignment

/-!
The pairs and segments of a result in order. Frame numbers rise on both sides through the pairs
of all runs, so a result is sorted from whichever side it is read.
-/

namespace VideoFingerprint

open Candidate

/-- Renaming elements so that it is still known which of them hold together
renames the runs. -/
theorem splitBy_map {α β : Type} {r : α → α → Bool} {r' : β → β → Bool} {f : α → β}
    (h : ∀ a b, r' (f a) (f b) = r a b) (l : List α) :
    (l.map f).splitBy r' = (l.splitBy r).map (List.map f) := by
  obtain ⟨hflat, hnil, hchains, hbreaks⟩ := List.splitBy_eq_iff.1 (Eq.refl (l.splitBy r))
  refine List.splitBy_eq_iff.2 ⟨?_, ?_, ?_, ?_⟩
  · rw [← List.map_flatten, ← hflat]
  · rw [List.mem_map]
    rintro ⟨run, hrun, hempty⟩
    rw [List.map_eq_nil_iff] at hempty
    exact hnil (hempty ▸ hrun)
  · intro m hm
    obtain ⟨run, hrun, rfl⟩ := List.mem_map.1 hm
    rw [List.isChain_map]
    simpa only [h] using hchains run hrun
  · rw [List.isChain_map]
    refine hbreaks.imp fun a b ⟨ha, hb, hbreak⟩ => ⟨by simpa using ha, by simpa using hb, ?_⟩
    rw [List.getLast_map, List.head_map, h]
    exact hbreak

theorem mem_all_of_mem_acceptedCandidates {cfg : MatchConfig} {query reference : List Feature}
    {c : Candidate} (hc : c ∈ acceptedCandidates cfg query reference) :
    c ∈ all cfg query reference :=
  (isGreedy_acceptedCandidates cfg query reference).subset c hc

theorem frame_lt_of_lt {fs : List Feature} (h : fs.Pairwise fun f g => f.frame < g.frame)
    {i j : Nat} {f g : Feature} (hf : fs[i]? = some f) (hg : fs[j]? = some g) (hlt : i < j) :
    f.frame < g.frame := by
  obtain ⟨hi, rfl⟩ := List.getElem?_eq_some_iff.1 hf
  obtain ⟨hj, rfl⟩ := List.getElem?_eq_some_iff.1 hg
  exact List.pairwise_iff_getElem.1 h i j hi hj hlt

theorem pairwise_frame_acceptedCandidates {cfg : MatchConfig} {query reference : List Feature}
    (hquery : query.Pairwise fun f g => f.frame < g.frame)
    (hreference : reference.Pairwise fun f g => f.frame < g.frame) :
    ((acceptedCandidates cfg query reference).map toPair).Pairwise fun a b =>
      a.query.frame < b.query.frame ∧ a.reference.frame < b.reference.frame := by
  rw [List.pairwise_map]
  refine (pairwise_acceptedCandidates cfg query reference).imp_of_mem fun {a b} ha hb hab => ?_
  obtain ⟨hf, hg, -⟩ := mem_all_iff.1 (mem_all_of_mem_acceptedCandidates ha)
  obtain ⟨hf', hg', -⟩ := mem_all_iff.1 (mem_all_of_mem_acceptedCandidates hb)
  exact ⟨frame_lt_of_lt hquery hf hf' hab.1, frame_lt_of_lt hreference hg hg' hab.2⟩

theorem flatten_matchedRuns_sublist (cfg : MatchConfig) (query reference : List Feature) :
    (matchedRuns cfg query reference).flatten.Sublist
      ((acceptedCandidates cfg query reference).map toPair) := by
  rw [matchedRuns, ← List.map_flatten]
  refine List.Sublist.map _ ?_
  conv => rhs; rw [← List.flatten_splitBy follows (acceptedCandidates cfg query reference)]
  exact List.filter_sublist.flatten

theorem pairwise_frame_matchedRuns {cfg : MatchConfig} {query reference : List Feature}
    (hquery : query.Pairwise fun f g => f.frame < g.frame)
    (hreference : reference.Pairwise fun f g => f.frame < g.frame) :
    (matchedRuns cfg query reference).flatten.Pairwise fun a b =>
      a.query.frame < b.query.frame ∧ a.reference.frame < b.reference.frame :=
  (pairwise_frame_acceptedCandidates hquery hreference).sublist
    (flatten_matchedRuns_sublist cfg query reference)

namespace MatchedSegment

theorem ofPairs?_eq_some_iff {run : List MatchedPair} {s : MatchedSegment} :
    ofPairs? run = some s ↔ ∃ first last, run.head? = some first ∧ run.getLast? = some last ∧
      s = ⟨run.length, .between first.query last.query,
        .between first.reference last.reference⟩ := by
  unfold ofPairs?
  cases hhead : run.head? with
  | none => simp
  | some first =>
      cases hlast : run.getLast? with
      | none => simp
      | some last => simp [eq_comm]

theorem firstFrame_of_ofPairs? {run : List MatchedPair} {s : MatchedSegment}
    (h : ofPairs? run = some s) : ∃ pair ∈ run, s.query.firstFrame = pair.query.frame ∧
      s.reference.firstFrame = pair.reference.frame := by
  obtain ⟨first, last, hfirst, -, rfl⟩ := ofPairs?_eq_some_iff.1 h
  exact ⟨first, List.mem_of_mem_head? hfirst, rfl, rfl⟩

/-- Segments of runs whose pairs rise are themselves in order on both sides. -/
theorem pairwise_firstFrame {runs : List (List MatchedPair)}
    (h : runs.flatten.Pairwise fun a b =>
      a.query.frame < b.query.frame ∧ a.reference.frame < b.reference.frame) :
    (runs.filterMap ofPairs?).Pairwise fun s t =>
      s.query.firstFrame < t.query.firstFrame ∧
      s.reference.firstFrame < t.reference.firstFrame := by
  rw [List.pairwise_filterMap]
  refine (List.pairwise_flatten.1 h).2.imp fun {run run'} hruns s hs t ht => ?_
  obtain ⟨a, ha, hquery, hreference⟩ := firstFrame_of_ofPairs? hs
  obtain ⟨b, hb, hquery', hreference'⟩ := firstFrame_of_ofPairs? ht
  rw [hquery, hquery', hreference, hreference']
  exact hruns a ha b hb

theorem ofPairs?_map_swapped (run : List MatchedPair) :
    ofPairs? (run.map MatchedPair.swapped) = (ofPairs? run).map swapped := by
  unfold ofPairs?
  rw [List.head?_map, List.getLast?_map, List.length_map]
  cases run.head? with
  | none => rfl
  | some first =>
      cases run.getLast? with
      | none => rfl
      | some last => rfl

end MatchedSegment

/-- A match rests on two eligible frames within the threshold. -/
theorem exists_within_of_isMatch {cfg : MatchConfig} {query reference : Fingerprint}
    (h : (matchFingerprints cfg query reference).isMatch = true) :
    ∃ f ∈ query.eligible cfg.minQuality, ∃ g ∈ reference.eligible cfg.minQuality,
      f.hash.distance g.hash ≤ cfg.threshold := by
  generalize hqs : query.eligible cfg.minQuality = qs
  generalize hrs : reference.eligible cfg.minQuality = rs
  have hsegments : (matchedRuns cfg qs rs).filterMap MatchedSegment.ofPairs? ≠ [] := by
    intro hnil
    simp [matchFingerprints, MatchResult.isMatch, MatchResult.ofRuns, hqs, hrs, hnil] at h
  obtain ⟨s, hs⟩ := List.exists_mem_of_ne_nil _ hsegments
  obtain ⟨run, hrun, hs⟩ := List.mem_filterMap.1 hs
  obtain ⟨pair, hpair, -⟩ := MatchedSegment.firstFrame_of_ofPairs? hs
  have hmem :=
    (flatten_matchedRuns_sublist cfg qs rs).subset (List.mem_flatten_of_mem hrun hpair)
  obtain ⟨c, hc, -⟩ := List.mem_map.1 hmem
  obtain ⟨hf, hg, hd, hwithin⟩ := mem_all_iff.1 (mem_all_of_mem_acceptedCandidates hc)
  refine ⟨c.query, List.mem_of_getElem? hf, c.reference, List.mem_of_getElem? hg, ?_⟩
  rw [← hd]
  simpa [MatchConfig.within] using hwithin

end VideoFingerprint
