import Mathlib.Data.List.Forall2
import VideoFingerprint.Proofs.Corpus.Shortlist
import VideoFingerprint.Proofs.Corpus.Ties

/-!
Frames of low quality in a search. Comparing two fingerprints looks at eligible frames only,
and so does looking up the frames of a query. But stored frames are filed whatever their
quality, because the quality that counts is not known before the query, so a stored frame of
low quality can bring its fingerprint onto the shortlist. This has no effect when fewer bits
may differ than there are bands; otherwise it decides whether a match is found, and never what
the match is or where it ranks.
-/

namespace VideoFingerprint

/-- The fingerprints have the same frames of quality `minQuality` or better: one becomes the
other when frames of lower quality are taken away and put in. -/
def Fingerprint.SameAbove (minQuality : Float) (p p' : Fingerprint) : Prop :=
  p'.eligible minQuality = p.eligible minQuality

/-- A comparison looks at eligible frames only. -/
theorem matchFingerprints_sameAbove {cfg : MatchConfig} {p p' q q' : Fingerprint}
    (hp : p.SameAbove cfg.minQuality p') (hq : q.SameAbove cfg.minQuality q') :
    matchFingerprints cfg p' q' = matchFingerprints cfg p q := by
  unfold matchFingerprints
  rw [hp, hq]

namespace Index

variable {ι : Type} {cfg : MatchConfig} {query query' : Fingerprint}
  {entries entries' : List (ι × Fingerprint)}

def SameAbove (minQuality : Float) (entries entries' : List (ι × Fingerprint)) : Prop :=
  List.Forall₂ (fun e e' => e'.1 = e.1 ∧ e.2.SameAbove minQuality e'.2) entries entries'

theorem SameAbove.symm {minQuality : Float} (h : SameAbove minQuality entries entries') :
    SameAbove minQuality entries' entries :=
  h.flip.imp fun _ _ he => ⟨he.1.symm, he.2.symm⟩

theorem SameAbove.refl (minQuality : Float) (entries : List (ι × Fingerprint)) :
    SameAbove minQuality entries entries :=
  List.forall₂_same.2 fun _ _ => ⟨rfl, rfl⟩

/-! ### Searching the shortlist -/

/-- A search compares the query with the fingerprints on the shortlist. -/
theorem exists_query?_eq {config : IndexConfig} (hsplits : config.splits = true)
    (entries : List (ι × Fingerprint)) :
    ∃ x : Index ι, ofEntries? config entries = some x ∧ ∀ (cfg : MatchConfig)
    (query : Fingerprint),
      x.query? cfg query = some (rankHits (scan config.minScore cfg query
        (entries.filter fun e => SharesBand config (query.eligible cfg.minQuality) e.2))) := by
  obtain ⟨x, hx, rfl, -, -, hshort⟩ := exists_shortlistPlaces? hsplits entries
  refine ⟨x, hx, fun cfg query => ?_⟩
  obtain ⟨places, hplaces, hlisted⟩ := hshort cfg query
  rw [query?, hplaces, Option.map_some, hlisted, filterMap_hit?_eq_scan]

theorem scan_sameAbove (hquery : query.SameAbove cfg.minQuality query')
    (hentries : SameAbove cfg.minQuality entries entries') (minScore : Float) :
    scan minScore cfg query' entries' = scan minScore cfg query entries := by
  rw [scan, scan]
  refine congrArg (List.filter _) ?_
  induction hentries with
  | nil => rfl
  | cons he _ ih =>
      rw [List.map_cons, List.map_cons, ih, he.1, matchFingerprints_sameAbove hquery he.2]

theorem scan_append (minScore : Float) (cfg : MatchConfig) (query : Fingerprint)
    (first second : List (ι × Fingerprint)) :
    scan minScore cfg query (first ++ second) =
      scan minScore cfg query first ++ scan minScore cfg query second := by
  rw [scan, List.map_append, List.filter_append]
  rfl

/-- Fewer fingerprints on the shortlist give fewer hits, and change nothing else. -/
theorem scan_filter_sublist (hentries : SameAbove cfg.minQuality entries entries')
    {p p' : ι × Fingerprint → Bool}
    (hlisted : List.Forall₂ (fun e e' => p' e' = true → p e = true) entries entries')
    (minScore : Float) :
    (scan minScore cfg query (entries'.filter p')).Sublist
      (scan minScore cfg query (entries.filter p)) := by
  induction hentries with
  | nil => rfl
  | @cons e e' entries entries' he _ ih =>
      obtain ⟨himp, hrest⟩ := List.forall₂_cons.1 hlisted
      have hsame : scan minScore cfg query [e'] = scan minScore cfg query [e] :=
        scan_sameAbove rfl (.cons he .nil) minScore
      rw [← List.singleton_append, ← List.singleton_append (x := e), List.filter_append,
        List.filter_append, scan_append, scan_append]
      refine List.Sublist.append ?_ (ih hrest)
      by_cases hp' : p' e' = true
      · rw [List.filter_cons_of_pos hp', List.filter_cons_of_pos (himp hp'), List.filter_nil,
          List.filter_nil, hsame]
      · rw [List.filter_cons_of_neg hp', List.filter_nil]
        exact List.nil_sublist _

/-- Where fewer bits may differ than there are bands, a fingerprint that is not on the
shortlist would give no hit. -/
theorem scan_filter_sharesBand {config : IndexConfig} (hconfig : config.fault? = none)
    (hnear : cfg.threshold < config.bands) (minScore : Float) :
    scan minScore cfg query
      (entries.filter fun e => SharesBand config (query.eligible cfg.minQuality) e.2) =
      scan minScore cfg query entries := by
  rw [scan, scan, List.filter_map, List.filter_map, List.filter_filter]
  refine congrArg (List.map _) (List.filter_congr fun e _ => ?_)
  rw [Bool.and_eq_left_iff_imp]
  intro hhit
  rw [Function.comp_apply, decide_eq_true_iff] at hhit
  rw [decide_eq_true_iff]
  exact sharesBand_of_isMatch hconfig hnear hhit.1

/-! ### What low quality can change -/

theorem sharesBits_of_sublist {bands : Nat} {minQuality : Float} {p p' : Fingerprint}
    (hframes : p'.features.Sublist p.features) (h : SharesBits bands minQuality query p') :
    SharesBits bands minQuality query p := by
  obtain ⟨f, hf, hquality, g, hg, hband⟩ := h
  exact ⟨f, hf, hquality, g, hframes.subset hg, hband⟩

/-- Frames of low quality that are taken from the query or put into it never change what is
found. Neither do those of stored fingerprints, if fewer bits may differ than there are bands,
or if the same fingerprints stay on the shortlist. Otherwise both searches find a part of what
comparing the query with everything would find, each hit with the same result and in the same
order, and taking stored frames away only loses hits. -/
theorem query?_sameAbove {bands : Nat} {minScore : Float} {config : IndexConfig}
    (hconfig : IndexConfig.build bands minScore = .ok config) {cfg : MatchConfig}
    {query query' : Fingerprint} (hquery : query.SameAbove cfg.minQuality query')
    {entries entries' : List (ι × Fingerprint)}
    (hentries : SameAbove cfg.minQuality entries entries') :
    ∃ x x' hits hits', ofEntries? config entries = some x ∧
      ofEntries? config entries' = some x' ∧
      x.query? cfg query = some hits ∧ x'.query? cfg query' = some hits' ∧
      (entries' = entries → hits' = hits) ∧
      (cfg.threshold < bands → hits' = hits) ∧
      (List.Forall₂ (fun e e' => SharesBits bands cfg.minQuality query e.2 ↔
        SharesBits bands cfg.minQuality query e'.2) entries entries' → hits' = hits) ∧
      (List.Forall₂ (fun e e' => e'.2.features.Sublist e.2.features) entries entries' →
        hits'.Sublist hits) ∧
      hits.Sublist (rankHits (scan minScore cfg query entries)) ∧
      hits'.Sublist (rankHits (scan minScore cfg query entries)) := by
  obtain ⟨rfl, hfault⟩ := IndexConfig.build_eq_ok_iff.1 hconfig
  have hsplits := IndexConfig.splits_of_fault?_eq_none hfault
  obtain ⟨x, hx, hfound⟩ := exists_query?_eq hsplits entries
  obtain ⟨x', hx', hfound'⟩ := exists_query?_eq hsplits entries'
  set listed : ι × Fingerprint → Bool :=
    fun e => SharesBits bands cfg.minQuality query e.2 with hlisted
  have hsearch : x.query? cfg query =
      some (rankHits (scan minScore cfg query (entries.filter listed))) := by
    simp only [hfound, hlisted, ← sharesBits_iff hfault]
  have hsearch' : x'.query? cfg query' =
      some (rankHits (scan minScore cfg query (entries'.filter listed))) := by
    rw [hfound', hquery, scan_sameAbove hquery (.refl _ _)]
    simp only [hlisted, ← sharesBits_iff hfault]
  have hall : scan minScore cfg query entries' = scan minScore cfg query entries :=
    scan_sameAbove rfl hentries minScore
  have hnear (hlt : cfg.threshold < bands) (es : List (ι × Fingerprint)) :
      scan minScore cfg query (es.filter listed) = scan minScore cfg query es := by
    simp only [hlisted, sharesBits_iff hfault]
    exact scan_filter_sharesBand hfault hlt minScore
  have hsame (hshare : List.Forall₂ (fun e e' => SharesBits bands cfg.minQuality query e.2 ↔
      SharesBits bands cfg.minQuality query e'.2) entries entries') :
      scan minScore cfg query (entries'.filter listed) =
        scan minScore cfg query (entries.filter listed) := by
    refine (scan_filter_sublist hentries (hshare.imp fun e e' h => ?_) minScore).antisymm
      (scan_filter_sublist hentries.symm (hshare.flip.imp fun e e' h => ?_) minScore)
    · simpa [hlisted] using h.2
    · simpa [hlisted] using h.1
  have hpart (es : List (ι × Fingerprint)) :
      (scan minScore cfg query (es.filter listed)).Sublist (scan minScore cfg query es) :=
    (List.filter_sublist.map _).filter _
  refine ⟨x, x', _, _, hx, hx', hsearch, hsearch', ?_,
    fun hlt => ?_, fun hshare => ?_, fun hframes => ?_,
    rankHits_sublist (hpart entries), rankHits_sublist (hall ▸ hpart entries')⟩
  · rintro rfl
    rfl
  · rw [hnear hlt, hnear hlt, hall]
  · rw [hsame hshare]
  · refine rankHits_sublist
      (scan_filter_sublist hentries (hframes.imp fun e e' h => ?_) minScore)
    simpa [hlisted] using sharesBits_of_sublist h

def plainQuery : Fingerprint := ⟨[⟨0, 0, ⟨0⟩, 100⟩], 0, 0, by decide +kernel⟩

/-- A frame that differs from the query in sixteen bits, one in each band of the
default settings. -/
def scattered : Feature :=
  ⟨1, 1, .ofWords 0x1000100010001 0x1000100010001 0x1000100010001 0x1000100010001, 100⟩

def scatteredOnly : Fingerprint := ⟨[scattered], 0, 0, by decide +kernel⟩

/-- The same frame behind a frame of quality zero that is equal to the query. -/
def scatteredAfterBlank : Fingerprint := ⟨[⟨0, 0, ⟨0⟩, 0⟩, scattered], 0, 0, by decide +kernel⟩

theorem sameAbove_scattered : SameAbove MatchConfig.default.minQuality
    [("near", scatteredAfterBlank)] [("near", scatteredOnly)] := by
  have hlow : ¬ decide (MatchConfig.default.minQuality ≤ (0 : Float)) = true := by
    decide +kernel
  have hframes :
      scatteredAfterBlank.SameAbove MatchConfig.default.minQuality scatteredOnly := by
    refine Eq.symm (List.filter_cons_of_neg ?_)
    exact hlow
  exact .cons ⟨rfl, hframes⟩ .nil

/-- With 32 bands no frame of low quality is needed to find the other one. -/
theorem query?_sameAbove_scattered :
    IndexConfig.build 32 0 = .ok ⟨32, 0⟩ ∧ MatchConfig.default.threshold < 32 ∧
      SameAbove MatchConfig.default.minQuality [("near", scatteredAfterBlank)]
        [("near", scatteredOnly)] ∧
      ∃ x x' : Index String, ∃ hits,
        ofEntries? ⟨32, 0⟩ [("near", scatteredAfterBlank)] = some x ∧
        ofEntries? ⟨32, 0⟩ [("near", scatteredOnly)] = some x' ∧
        x.query? .default plainQuery = some hits ∧
        x'.query? .default plainQuery = some hits ∧ hits.map IndexHit.name = ["near"] := by
  have hconfig : IndexConfig.build 32 0 = .ok ⟨32, 0⟩ :=
    IndexConfig.build_eq_ok_iff.2 ⟨rfl, by decide +kernel⟩
  have hnear : MatchConfig.default.threshold < 32 := by decide
  have hquery : plainQuery.SameAbove MatchConfig.default.minQuality plainQuery := rfl
  obtain ⟨x, x', hits, hits', hx, hx', hhits, hhits', -, hsame, -⟩ :=
    query?_sameAbove hconfig hquery sameAbove_scattered
  have hsplits : (⟨32, 0⟩ : IndexConfig).splits = true := by decide
  obtain ⟨y, hy, hfound⟩ := exists_query?_eq hsplits [("near", scatteredAfterBlank)]
  obtain rfl : x = y := Option.some.inj (hx.symm.trans hy)
  refine ⟨hconfig, hnear, sameAbove_scattered, x, x', hits, hx, hx', hhits,
    hsame hnear ▸ hhits', ?_⟩
  obtain rfl := Option.some.inj (hhits.symm.trans (hfound .default plainQuery))
  decide +kernel

/-- With the default settings, where 31 bits may differ and there are sixteen bands, a frame of
quality zero decides whether a match is found. -/
theorem query?_scattered :
    SameAbove MatchConfig.default.minQuality [("near", scatteredAfterBlank)]
      [("near", scatteredOnly)] ∧
      ∃ x x' : Index String, ofEntries? .default [("near", scatteredAfterBlank)] = some x ∧
        ofEntries? .default [("near", scatteredOnly)] = some x' ∧
        (x.query? .default plainQuery).map (List.map IndexHit.name) = some ["near"] ∧
        (x'.query? .default plainQuery).map (List.map IndexHit.name) = some [] := by
  have hsplits : IndexConfig.default.splits = true := by decide
  obtain ⟨x, hx, hfound⟩ := exists_query?_eq hsplits [("near", scatteredAfterBlank)]
  obtain ⟨x', hx', hfound'⟩ := exists_query?_eq hsplits [("near", scatteredOnly)]
  refine ⟨sameAbove_scattered, x, x', hx, hx', ?_, ?_⟩
  · rw [hfound]
    decide +kernel
  · rw [hfound']
    decide +kernel

end Index

end VideoFingerprint
