import VideoFingerprint.Corpus.Index
import VideoFingerprint.Proofs.Fingerprint.RoundTrip
import VideoFingerprint.Proofs.Matching.Coverage
import VideoFingerprint.Proofs.Matching.Retiming

/-!
Fingerprints from files. Writing a fingerprint and reading it again rounds its times and
changes nothing else, and times do not count. So comparing fingerprints that were read from
files, in pairs, line by line or through an index, finds what comparing the fingerprints that
were written finds.
-/

namespace VideoFingerprint

/-! ### Reloaded fingerprints -/

namespace Fingerprint

/-- A fingerprint that a file can hold: its frame numbers have 64 bits. -/
def Storable (p : Fingerprint) : Prop := ∀ f ∈ p.features, f.frame ≤ Text.maxU64

/-- The fingerprint that is read where this one has been written. -/
def reloaded (p : Fingerprint) : Fingerprint := (decode (encode p)).toOption.getD p

theorem Storable.decode_eq {p : Fingerprint} (hp : p.Storable) :
    decode (encode p) = .ok p.reloaded := by
  obtain ⟨q, hdecode, -⟩ := exists_decode_encode hp
  rw [reloaded, hdecode]
  rfl

theorem Storable.isRetimed {p : Fingerprint} (hp : p.Storable) :
    p.IsRetimed (Decimal.settled timeDecimals) p.reloaded := by
  obtain ⟨q, hdecode, hq⟩ := exists_decode_encode hp
  rw [hp.decode_eq] at hdecode
  cases hdecode
  exact hq

end Fingerprint

/-! ### An index of other fingerprints -/

def IndexHit.retimed {ι : Type} (h : Float → Float) (hit : IndexHit ι) : IndexHit ι :=
  { hit with result := hit.result.retimed h }

namespace Index

variable {ι : Type} {h : Float → Float} {g : Fingerprint → Fingerprint} {x y : Index ι}
  {query : Fingerprint}

/-- The index with other fingerprints in the places of the stored ones. -/
def mapStored (g : Fingerprint → Fingerprint) (x : Index ι) : Index ι :=
  { x with entries := x.entries.map (Prod.map id g) }

@[simp] theorem size_mapStored : (x.mapStored g).size = x.size := Array.size_map

theorem insert?_mapStored {p : Fingerprint} (hp : p.IsRetimed h (g p)) (name : ι) :
    (x.mapStored g).insert? name (g p) = (x.insert? name p).map (mapStored g) := by
  have hbuckets : (g p).features.foldlM (fileFeature? x.config x.size) x.buckets =
      p.features.foldlM (fileFeature? x.config x.size) x.buckets := by
    rw [hp, List.foldlM_map]
    rfl
  rw [insert?, insert?, size_mapStored]
  show (((g p).features.foldlM (fileFeature? x.config x.size) x.buckets).map _) = _
  rw [hbuckets, Option.map_map]
  congr 1
  funext buckets
  simp [mapStored]

theorem entries_of_insert? {name : ι} {p : Fingerprint} (hy : x.insert? name p = some y) :
    y.entries = x.entries.push (name, p) := by
  obtain ⟨buckets, -, rfl⟩ := Option.map_eq_some_iff.1 hy
  rfl

theorem foldlM_insert?_mapStored {entries : List (ι × Fingerprint)}
    (hentries : ∀ e ∈ entries, e.2.IsRetimed h (g e.2)) (x : Index ι) :
    (entries.map (Prod.map id g)).foldlM (fun (x : Index ι) (name, p) => x.insert? name p)
      (x.mapStored g) =
      (entries.foldlM (fun (x : Index ι) (name, p) => x.insert? name p) x).map
        (mapStored g) := by
  induction entries generalizing x with
  | nil => rfl
  | cons e entries ih =>
      obtain ⟨name, p⟩ := e
      obtain ⟨hp, hrest⟩ := List.forall_mem_cons.1 hentries
      rw [List.map_cons, List.foldlM_cons, List.foldlM_cons]
      show ((x.mapStored g).insert? name (g p)).bind _ =
        Option.map _ ((x.insert? name p).bind _)
      rw [insert?_mapStored hp]
      cases x.insert? name p with
      | none => rfl
      | some y => exact ih hrest y

theorem entries_of_foldlM_insert? {entries : List (ι × Fingerprint)}
    (hy : entries.foldlM (fun (x : Index ι) (name, p) => x.insert? name p) x = some y) :
    y.entries.toList = x.entries.toList ++ entries := by
  induction entries generalizing x with
  | nil =>
      cases hy
      exact (List.append_nil _).symm
  | cons e entries ih =>
      rw [List.foldlM_cons] at hy
      obtain ⟨z, hz, hrest⟩ := Option.bind_eq_some_iff.1 hy
      rw [ih hrest, entries_of_insert? hz, Array.toList_push, List.append_assoc]
      rfl

theorem ofEntries?_map {entries : List (ι × Fingerprint)}
    (hentries : ∀ e ∈ entries, e.2.IsRetimed h (g e.2)) (config : IndexConfig) :
    ofEntries? config (entries.map (Prod.map id g)) =
      (ofEntries? config entries).map (mapStored g) := by
  have hempty : (empty config : Index ι).mapStored g = empty config := by
    rw [mapStored, empty, Array.map_empty]
  rw [ofEntries?, ofEntries?, ← foldlM_insert?_mapStored hentries, hempty]

theorem entries_of_ofEntries? {config : IndexConfig} {entries : List (ι × Fingerprint)}
    (hx : ofEntries? config entries = some x) : x.entries.toList = entries :=
  (entries_of_foldlM_insert? hx).trans (List.nil_append entries)

/-! ### Queries -/

theorem shortlistPlaces?_mapStored (hquery : query.IsRetimed h (g query)) (cfg : MatchConfig) :
    (x.mapStored g).shortlistPlaces? cfg (g query) = x.shortlistPlaces? cfg query := by
  have hplaces : (x.mapStored g).places? ((g query).eligible cfg.minQuality) =
      x.places? (query.eligible cfg.minQuality) := by
    rw [places?, places?, hquery.eligible_eq, List.mapM_map]
    rfl
  rw [shortlistPlaces?, shortlistPlaces?, hplaces, size_mapStored]

theorem hit?_mapStored (hquery : query.IsRetimed h (g query)) {e : ι × Fingerprint}
    (he : e.2.IsRetimed h (g e.2)) (cfg : MatchConfig) :
    (x.mapStored g).hit? cfg (g query) (Prod.map id g e) =
      (x.hit? cfg query e).map (IndexHit.retimed h) := by
  rw [hit?, hit?, Prod.map_snd, matchFingerprints_retimed hquery he]
  rw [MatchResult.isMatch_retimed, Option.map_if]
  rfl

theorem rankHits_retimed (hits : List (IndexHit ι)) :
    rankHits (hits.map (IndexHit.retimed h)) = (rankHits hits).map (IndexHit.retimed h) :=
  (List.map_mergeSort (f := IndexHit.retimed h)
    (r := fun a b : IndexHit ι => Binary64.sortsBefore b.result.score a.result.score)
    (s := fun a b : IndexHit ι => Binary64.sortsBefore b.result.score a.result.score)
    fun _ _ _ _ => rfl).symm

/-- A query at other times to an index of fingerprints at other times has the same hits, at
the other times. -/
theorem query?_mapStored (hquery : query.IsRetimed h (g query))
    (hx : ∀ e ∈ x.entries, e.2.IsRetimed h (g e.2)) (cfg : MatchConfig) :
    (x.mapStored g).query? cfg (g query) =
      (x.query? cfg query).map (List.map (IndexHit.retimed h)) := by
  have hhits (places : List ℕ) :
      (places.filterMap fun i => (x.mapStored g).entries[i]?).filterMap
        ((x.mapStored g).hit? cfg (g query)) =
        ((places.filterMap fun i => x.entries[i]?).filterMap (x.hit? cfg query)).map
          (IndexHit.retimed h) := by
    rw [List.filterMap_filterMap, List.filterMap_filterMap, List.map_filterMap]
    refine List.filterMap_congr fun i _ => ?_
    rw [mapStored, Array.getElem?_map]
    cases he : x.entries[i]? with
    | none => rfl
    | some e => exact hit?_mapStored hquery (hx e (Array.mem_of_getElem? he)) cfg
  rw [query?, query?, shortlistPlaces?_mapStored hquery, Option.map_map]
  congr 1
  funext places
  rw [Function.comp_apply, hhits, rankHits_retimed]

/-- Filling an index and querying it, all at other times. -/
theorem ofEntries?_bind_query? {entries : List (ι × Fingerprint)}
    (hentries : ∀ e ∈ entries, e.2.IsRetimed h (g e.2)) (hquery : query.IsRetimed h (g query))
    (config : IndexConfig) (cfg : MatchConfig) :
    (ofEntries? config (entries.map (Prod.map id g))).bind (fun x => x.query? cfg (g query)) =
      ((ofEntries? config entries).bind fun x => x.query? cfg query).map
        (List.map (IndexHit.retimed h)) := by
  rw [ofEntries?_map hentries]
  cases hx : ofEntries? config entries with
  | none => rfl
  | some x =>
      refine query?_mapStored hquery (fun e he => hentries e ?_) cfg
      rw [← entries_of_ofEntries? hx]
      exact Array.mem_toList_iff.2 he

end Index

namespace Fingerprint

variable {ι : Type}

/-- Storing fingerprints in files changes no verdict. Comparing two fingerprints that were
written and read finds what comparing the two that were written finds, but for the times, which
are what their three decimals denote; comparing them line by line finds the same; and an index
of fingerprints that were written and read answers a query that was written and read with the
same hits, in the same order. -/
theorem verdicts_reloaded :
    ∃ round : Float → Float,
      (∀ time, time.isFinite = true →
        Decimal.literal? (Decimal.fixed timeDecimals time) = some (round time)) ∧
      (∀ a b : Fingerprint, a.Storable → b.Storable →
        decode (encode a) = .ok a.reloaded ∧ decode (encode b) = .ok b.reloaded ∧ ∀ cfg,
          matchFingerprints cfg a.reloaded b.reloaded =
            (matchFingerprints cfg a b).retimed round ∧
          matchByLine cfg a.reloaded b.reloaded = matchByLine cfg a b) ∧
      ∀ (entries : List (ι × Fingerprint)) (query : Fingerprint),
        (∀ e ∈ entries, e.2.Storable) → query.Storable → ∀ config cfg,
          (Index.ofEntries? config (entries.map fun e => (e.1, e.2.reloaded))).bind
              (fun x => x.query? cfg query.reloaded) =
            ((Index.ofEntries? config entries).bind fun x => x.query? cfg query).map
              (List.map (IndexHit.retimed round)) := by
  refine ⟨Decimal.settled timeDecimals,
    fun time => Decimal.literal?_fixed timeDecimals, fun a b ha hb => ?_,
    fun entries query hentries hquery config cfg => ?_⟩
  · exact ⟨ha.decode_eq, hb.decode_eq,
      fun cfg => ⟨matchFingerprints_retimed ha.isRetimed hb.isRetimed cfg,
      matchByLine_retimed ha.isRetimed hb.isRetimed cfg⟩⟩
  · exact Index.ofEntries?_bind_query? (fun e he => (hentries e he).isRetimed) hquery.isRetimed
      config cfg

theorem verdicts_reloaded_unsettledTimes :
    unsettledTimes.Storable ∧ stillFrames.Storable ∧ ∃ round : Float → Float,
      Decimal.literal? (Decimal.fixed timeDecimals 0.0004) = some (round 0.0004) ∧
      matchFingerprints .default unsettledTimes.reloaded stillFrames.reloaded =
        (matchFingerprints .default unsettledTimes stillFrames).retimed round ∧
      (Index.ofEntries? .default [("video", unsettledTimes.reloaded)]).bind
          (fun x => x.query? .default stillFrames.reloaded) =
        ((Index.ofEntries? .default [("video", unsettledTimes)]).bind fun x =>
          x.query? .default stillFrames).map (List.map (IndexHit.retimed round)) := by
  have htimes : unsettledTimes.Storable := by
    unfold Storable
    decide
  have hstill : stillFrames.Storable := by
    unfold Storable
    decide
  obtain ⟨round, hround, hpair, hindex⟩ := verdicts_reloaded (ι := String)
  obtain ⟨-, -, hverdicts⟩ := hpair unsettledTimes stillFrames htimes hstill
  refine ⟨htimes, hstill, round, hround 0.0004 (by decide +kernel), (hverdicts .default).1, ?_⟩
  exact hindex [("video", unsettledTimes)] stillFrames (List.forall_mem_singleton.2 htimes)
    hstill .default .default

end Fingerprint

end VideoFingerprint
