import VideoFingerprint.Proofs.Corpus.Buckets
import VideoFingerprint.Proofs.Hash.Distance
import VideoFingerprint.Proofs.Matching.Runs

/-!
Exact recall of a search. When fewer bits may differ than there are bands, a match shares a
whole band with an eligible frame of the query, so looking into the buckets loses nothing: a
search gives the hits of comparing the query with every stored fingerprint, best first.
-/

namespace VideoFingerprint

namespace Index

variable {ι : Type} {x : Index ι}

/-- The hits of a query among all entries, each of which is compared. -/
def scan (minScore : Float) (cfg : MatchConfig) (query : Fingerprint)
    (entries : List (ι × Fingerprint)) : List (IndexHit ι) :=
  (entries.map fun entry => ⟨entry.1, matchFingerprints cfg query entry.2⟩).filter fun hit =>
    hit.result.isMatch ∧ minScore ≤ hit.result.score

/-- The hits that are found, in the order in which they are reported: by falling score, where
hits of one score keep their order. -/
structure Ranked (found hits : List (IndexHit ι)) : Prop where
  perm : hits.Perm found
  falling : hits.Pairwise fun a b => Binary64.sortsBefore b.result.score a.result.score = true
  stable : ∀ a b, [a, b].Sublist found → a.result.score = b.result.score → [a, b].Sublist hits

theorem falling_trans (a b c : IndexHit ι)
    (hab : Binary64.sortsBefore b.result.score a.result.score = true)
    (hbc : Binary64.sortsBefore c.result.score b.result.score = true) :
    Binary64.sortsBefore c.result.score a.result.score = true :=
  Binary64.sortsBefore_trans hbc hab

theorem falling_total (a b : IndexHit ι) :
    (Binary64.sortsBefore b.result.score a.result.score ||
    Binary64.sortsBefore a.result.score b.result.score) = true :=
  Binary64.sortsBefore_total b.result.score a.result.score

theorem ranked_rankHits (found : List (IndexHit ι)) : Ranked found (rankHits found) := by
  refine ⟨List.mergeSort_perm _ _,
    List.pairwise_mergeSort falling_trans falling_total found, ?_⟩
  intro a b hsub heq
  refine List.pair_sublist_mergeSort falling_trans falling_total ?_ hsub
  rw [heq]
  exact Binary64.sortsBefore_refl _

theorem filterMap_hit?_eq_scan (cfg : MatchConfig) (query : Fingerprint)
    (entries : List (ι × Fingerprint)) :
    entries.filterMap (x.hit? cfg query) = scan x.config.minScore cfg query entries := by
  rw [scan, List.filter_map, ← List.filterMap_eq_filter, List.map_filterMap]
  refine List.filterMap_congr fun entry _ => ?_
  simp only [hit?, Option.guard, Function.comp_apply, decide_eq_true_eq]
  split <;> rfl

theorem filterMap_range_getElem? {α : Type} (l : List α) :
    (List.range l.length).filterMap (fun i => l[i]?) = l := by
  induction l with
  | nil => rfl
  | cons a l ih =>
      rw [List.length_cons, List.range_succ_eq_map, List.filterMap_cons, List.filterMap_map]
      simpa [Function.comp_def] using ih

theorem filterMap_filter_range {α β : Type} {l : List α} {keep : Nat → Bool} {f : α → Option β}
    (h : ∀ i a, l[i]? = some a → keep i = false → f a = none) :
    (((List.range l.length).filter keep).filterMap fun i => l[i]?).filterMap f =
      l.filterMap f := by
  conv => rhs; rw [← filterMap_range_getElem? l]
  rw [List.filterMap_filterMap, List.filterMap_filterMap, List.filterMap_filter]
  refine List.filterMap_congr fun i _ => ?_
  cases hkeep : keep i with
  | true => simp
  | false =>
      cases ha : l[i]? with
      | none => simp
      | some a => simp [h i a ha hkeep]

/-- Fingerprints that match within fewer bits than there are bands agree on a whole band. -/
theorem sharesBand_of_isMatch {config : IndexConfig} (hconfig : config.fault? = none)
    {cfg : MatchConfig} (hnear : cfg.threshold < config.bands) {query p : Fingerprint}
    (h : (matchFingerprints cfg query p).isMatch = true) :
    SharesBand config (query.eligible cfg.minQuality) p := by
  obtain ⟨f, hf, g, hg, hle⟩ := exists_within_of_isMatch h
  exact ⟨f, hf, g, List.mem_of_mem_filter hg, Hash.exists_band_eq_of_distance_lt
    (IndexConfig.bands_mul_bandWidth hconfig) (hle.trans_lt hnear)⟩

/-- A search misses nothing and adds nothing: it reports what comparing the query with every
stored fingerprint finds, by falling score and otherwise in the order of insertion. -/
theorem query?_ofEntries?_eq_scan {bands : Nat} {minScore : Float} {config : IndexConfig}
    (hconfig : IndexConfig.build bands minScore = .ok config)
    (entries : List (ι × Fingerprint)) (query : Fingerprint) (cfg : MatchConfig)
    (hnear : cfg.threshold < config.bands) :
    ∃ x : Index ι, ofEntries? config entries = some x ∧
      x.query? cfg query = some (rankHits (scan minScore cfg query entries)) ∧
      Ranked (scan minScore cfg query entries)
        (rankHits (scan minScore cfg query entries)) := by
  obtain ⟨rfl, hfault⟩ := IndexConfig.build_eq_ok_iff.1 hconfig
  have hsplits := IndexConfig.splits_of_fault?_eq_none hfault
  obtain ⟨x, hx, hxconfig, hentries, hfiled⟩ := ofEntries?_eq_some hsplits entries
  refine ⟨x, hx, ?_, ranked_rankHits _⟩
  obtain ⟨keep, hshort, hkeep⟩ :=
    shortlistPlaces?_eq_some (hxconfig ▸ hsplits) hfiled cfg query
  have hsize : x.size = entries.length := by rw [← hentries, Array.length_toList, size]
  have hget : ∀ i, x.entries[i]? = entries[i]? := fun i => by
    rw [← hentries, Array.getElem?_toList]
  have hscan : scan minScore cfg query entries = entries.filterMap (x.hit? cfg query) := by
    rw [filterMap_hit?_eq_scan, hxconfig]
  have hmiss : ∀ i entry, entries[i]? = some entry → keep i = false →
      x.hit? cfg query entry = none := by
    rintro i ⟨name, p⟩ hentry hout
    refine if_neg fun hhit => ?_
    have hshared := sharesBand_of_isMatch hfault hnear hhit.1
    rw [← hxconfig, ← hkeep i name p (by rw [hget, hentry]), hout] at hshared
    exact Bool.false_ne_true hshared
  rw [query?, hshort, Option.map_some, hscan, hsize]
  simp only [hget]
  rw [filterMap_filter_range hmiss]

/-- Thirty-two bands for differences of up to 31 bits: the least number of bands that
misses nothing. -/
theorem query?_stillFrames_eq_scan :
    IndexConfig.build 32 0 = .ok ⟨32, 0⟩ ∧ MatchConfig.default.threshold < 32 ∧
      ∃ x : Index String,
        ofEntries? ⟨32, 0⟩ [("first", stillFrames), ("second", stillFrames)] = some x ∧
        x.query? .default stillFrames = some (rankHits (scan 0 .default stillFrames
          [("first", stillFrames), ("second", stillFrames)])) := by
  have hconfig : IndexConfig.build 32 0 = .ok ⟨32, 0⟩ :=
    IndexConfig.build_eq_ok_iff.2 ⟨rfl, by decide +kernel⟩
  have hnear : MatchConfig.default.threshold < 32 := by decide
  obtain ⟨x, hx, hquery, -⟩ := query?_ofEntries?_eq_scan hconfig
    [("first", stillFrames), ("second", stillFrames)] stillFrames .default hnear
  exact ⟨hconfig, hnear, x, hx, hquery⟩

end Index

end VideoFingerprint
