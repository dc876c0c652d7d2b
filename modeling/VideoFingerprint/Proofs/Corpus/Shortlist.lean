import VideoFingerprint.Proofs.Corpus.Recall

/-!
The shortlist of a search, for every way to split hashes and every tolerance. A stored
fingerprint is listed when one of its frames, of whatever quality, agrees with an eligible
frame of the query on all bits of one band. How many bits two frames may differ in has no part
in this, and neither has the number of buckets that two fingerprints share: the buckets hold
rising places, so a place that was filed last is not filed again.
-/

namespace VideoFingerprint

namespace Hash

/-- Two hashes have the same bits in the `i`th stretch of `width` bits. -/
def AgreeOnBand (a b : Hash) (width i : Nat) : Prop :=
  ∀ k < size, k / width = i → a.bit? k = b.bit? k

instance (a b : Hash) (width i : Nat) : Decidable (AgreeOnBand a b width i) :=
  inferInstanceAs (Decidable (∀ k < size, k / width = i → a.bit? k = b.bit? k))

theorem agreeOnBand_iff {bands width : Nat} (hsize : bands * width = size) {i : Nat}
    (hi : i < bands) {a b : Hash} :
    AgreeOnBand a b width i ↔ a.band (i * width) width = b.band (i * width) width := by
  rw [band_eq_band_iff]
  have hend : i * width + width ≤ size := by
    rw [← hsize, ← Nat.succ_mul]
    exact Nat.mul_le_mul_right width hi
  constructor
  · intro h j hj
    have hlt : i * width + j < size := by omega
    have hplace : (i * width + j) / width = i := by
      rw [Nat.mul_comm, Nat.mul_add_div (by omega), Nat.div_eq_of_lt hj, Nat.add_zero]
    have hbit := h _ hlt hplace
    rw [bit?, bit?, if_pos hlt, if_pos hlt] at hbit
    exact Option.some.inj hbit
  · rintro h k hk rfl
    have hwidth : 0 < width := by
      by_contra hzero
      obtain rfl : width = 0 := by omega
      simp [size] at hsize
    have hbit := h (k % width) (Nat.mod_lt k hwidth)
    rw [Nat.div_add_mod'] at hbit
    rw [bit?, bit?, if_pos hk, if_pos hk, hbit]

end Hash

namespace Index

variable {ι : Type} {x : Index ι}

instance (config : IndexConfig) (fs : List Feature) (p : Fingerprint) :
    Decidable (SharesBand config fs p) :=
  inferInstanceAs (Decidable (∃ f ∈ fs, ∃ g ∈ p.features, ∃ i < config.bands,
    f.hash.band (i * config.bandWidth) config.bandWidth =
      g.hash.band (i * config.bandWidth) config.bandWidth))

/-! ### Stored fingerprints on the shortlist -/

/-- The places that are kept are those of the elements that satisfy a condition. -/
theorem filterMap_getElem?_eq_filter {α : Type} {l : List α} {keep : Nat → Bool} {p : α → Bool}
    (h : ∀ i a, l[i]? = some a → keep i = p a) :
    ((List.range l.length).filter keep).filterMap (fun i => l[i]?) = l.filter p := by
  set kept := ((List.range l.length).filter keep).filterMap fun i => l[i]? with hkept
  have hall : ∀ a ∈ kept, p a = true := by
    intro a ha
    obtain ⟨i, hi, hget⟩ := List.mem_filterMap.1 ha
    rw [← h i a hget]
    exact (List.mem_filter.1 hi).2
  have hnone (i : Nat) (a : α) (hget : l[i]? = some a) (hout : keep i = false) :
      Option.guard p a = none := by
    rw [h i a hget] at hout
    simp [hout]
  calc kept = kept.filter p := (List.filter_eq_self.2 hall).symm
    _ = kept.filterMap (Option.guard p) := by rw [List.filterMap_eq_filter]
    _ = l.filterMap (Option.guard p) := filterMap_filter_range hnone
    _ = l.filter p := by rw [List.filterMap_eq_filter]

/-- The shortlist holds the stored fingerprints that share a band with an eligible frame of the
query, in the order in which they were stored. -/
theorem exists_shortlistPlaces? {config : IndexConfig} (hsplits : config.splits = true)
    (entries : List (ι × Fingerprint)) :
    ∃ x : Index ι, ofEntries? config entries = some x ∧ x.config = config ∧
      x.entries.toList = entries ∧ x.Filed ∧
      ∀ (cfg : MatchConfig) (query : Fingerprint), ∃ places,
        x.shortlistPlaces? cfg query = some places ∧
        places.filterMap (fun i => x.entries[i]?) =
          entries.filter fun e => SharesBand config (query.eligible cfg.minQuality) e.2 := by
  obtain ⟨x, hx, hxconfig, hentries, hfiled⟩ := ofEntries?_eq_some hsplits entries
  refine ⟨x, hx, hxconfig, hentries, hfiled, fun cfg query => ?_⟩
  obtain ⟨keep, hshort, hkeep⟩ :=
    shortlistPlaces?_eq_some (hxconfig ▸ hsplits) hfiled cfg query
  refine ⟨_, hshort, ?_⟩
  have hget (i : Nat) : x.entries[i]? = entries[i]? := by
    rw [← hentries, Array.getElem?_toList]
  have hsize : x.size = entries.length := by rw [← hentries, Array.length_toList, size]
  simp only [hget, hsize]
  refine filterMap_getElem?_eq_filter fun i e he => ?_
  rw [Bool.eq_iff_iff, decide_eq_true_iff, hkeep i e.1 e.2 (by rw [hget, he]), hxconfig]

/-! ### Shared bits -/

/-- Some frame of `p`, of any quality, agrees on all bits of one of the bands with a frame of
the query of quality `minQuality` or better. -/
def SharesBits (bands : Nat) (minQuality : Float) (query p : Fingerprint) : Prop :=
  ∃ f ∈ query.features, minQuality ≤ f.quality ∧ ∃ g ∈ p.features, ∃ i < bands,
    f.hash.AgreeOnBand g.hash (Hash.size / bands) i

instance (bands : Nat) (minQuality : Float) (query p : Fingerprint) :
    Decidable (SharesBits bands minQuality query p) :=
  inferInstanceAs (Decidable (∃ f ∈ query.features, minQuality ≤ f.quality ∧
    ∃ g ∈ p.features, ∃ i < bands, f.hash.AgreeOnBand g.hash (Hash.size / bands) i))

theorem sharesBits_iff {config : IndexConfig} (hconfig : config.fault? = none)
    {minQuality : Float} {query p : Fingerprint} :
    SharesBits config.bands minQuality query p ↔
      SharesBand config (query.eligible minQuality) p := by
  have hsize : config.bands * (Hash.size / config.bands) = Hash.size :=
    IndexConfig.bands_mul_bandWidth hconfig
  simp only [SharesBits, SharesBand, Fingerprint.eligible, List.mem_filter, decide_eq_true_iff,
    and_assoc]
  refine exists_congr fun f => and_congr_right fun _ => and_congr_right fun _ =>
    exists_congr fun g =>
    and_congr_right fun _ => exists_congr fun i => and_congr_right fun hi => ?_
  exact Hash.agreeOnBand_iff hsize hi

/-- What a bucket lists: the places of the fingerprints with a frame whose band has the value
of the bucket. -/
theorem Filed.mem_iff (h : x.Filed) {key : BandKey} {place : Nat} :
    place ∈ (x.buckets.getD key #[]).toList ↔
      key.band < x.config.bands ∧ ∃ e, x.entries[place]? = some e ∧ ∃ g ∈ e.2.features,
        g.hash.band (key.band * x.config.bandWidth) x.config.bandWidth = key.value := by
  simp only [h key, List.mem_filter, List.mem_range, hasKey, Option.any_eq_true,
    List.contains_iff_mem, keysOf, List.mem_flatMap, IndexConfig.mem_keys_iff]
  constructor
  · rintro ⟨-, e, he, g, hg, hband, hvalue⟩
    exact ⟨hband, e, he, g, hg, hvalue⟩
  · rintro ⟨hband, e, he, g, hg, hvalue⟩
    exact ⟨(Array.getElem?_eq_some_iff.1 he).1, e, he, g, hg, hband, hvalue⟩

/-- After any insertions the buckets list, in rising order, the fingerprints that have their
bands, and the shortlist of a query names the fingerprints that agree with it on all bits of a
band: each once, in the order of insertion, and whatever the tolerances are. -/
theorem shortlist?_ofEntries? {bands : Nat} {minScore : Float} {config : IndexConfig}
    (hconfig : IndexConfig.build bands minScore = .ok config)
    (entries : List (ι × Fingerprint)) :
    ∃ x : Index ι, ofEntries? config entries = some x ∧
      (∀ (cfg : MatchConfig) (query : Fingerprint), x.shortlist? cfg query =
        some ((entries.filter fun e => SharesBits bands cfg.minQuality query e.2).map
          Prod.fst)) ∧
      ∀ band value, ((x.buckets.getD ⟨band, value⟩ #[]).toList.Pairwise (· < ·) ∧
        ∀ place, place ∈ (x.buckets.getD ⟨band, value⟩ #[]).toList ↔
          band < bands ∧ ∃ e, entries[place]? = some e ∧ ∃ g ∈ e.2.features,
            g.hash.band (band * (Hash.size / bands)) (Hash.size / bands) = value) := by
  obtain ⟨rfl, hfault⟩ := IndexConfig.build_eq_ok_iff.1 hconfig
  obtain ⟨x, hx, hxconfig, hentries, hfiled, hshort⟩ :=
    exists_shortlistPlaces? (IndexConfig.splits_of_fault?_eq_none hfault) entries
  refine ⟨x, hx, fun cfg query => ?_, fun band value => ⟨?_, fun place => ?_⟩⟩
  · obtain ⟨places, hplaces, hlisted⟩ := hshort cfg query
    have hnames : places.filterMap (fun i => x.entries[i]?.map Prod.fst) =
        (places.filterMap fun i => x.entries[i]?).map Prod.fst := (List.map_filterMap ..).symm
    rw [shortlist?, hplaces, Option.map_some, hnames, hlisted]
    simp only [sharesBits_iff hfault]
  · rw [hfiled ⟨band, value⟩]
    exact List.pairwise_lt_range.filter _
  · rw [hfiled.mem_iff, hxconfig, ← hentries, Array.getElem?_toList]
    rfl

/-- A query of one eligible frame, and one frame that is not. -/
def halfBlank : Fingerprint :=
  ⟨[⟨0, 0, .ofWords 0 5 5 5, 100⟩, ⟨1, 0, .ofWords 1 1 1 1, 0⟩], 0, 0, by decide +kernel⟩

/-- Three fingerprints: the first is like the frame that is not eligible, two frames of the
second have the lowest word of the other one, and in the last the same word stands in
another place. -/
def wordsInPlace : List (String × Fingerprint) :=
  [("blank", ⟨[⟨0, 0, .ofWords 1 1 1 1, 100⟩], 0, 0, by decide +kernel⟩),
    ("shared", ⟨[⟨0, 0, .ofWords 0 2 2 2, 0⟩, ⟨1, 0, .ofWords 0 3 5 3, 100⟩], 0,
      0, by decide +kernel⟩),
    ("moved", ⟨[⟨0, 0, .ofWords 5 0 0 0, 100⟩], 0, 0, by decide +kernel⟩)]

theorem shortlist?_wordsInPlace :
    IndexConfig.build 4 0 = .ok ⟨4, 0⟩ ∧ ∃ x : Index String,
      ofEntries? ⟨4, 0⟩ wordsInPlace = some x ∧
      x.shortlist? .default halfBlank = some ["shared"] := by
  have hconfig : IndexConfig.build 4 0 = .ok ⟨4, 0⟩ :=
    IndexConfig.build_eq_ok_iff.2 ⟨rfl, by decide +kernel⟩
  obtain ⟨x, hx, hshort, -⟩ := shortlist?_ofEntries? hconfig wordsInPlace
  refine ⟨hconfig, x, hx, ?_⟩
  rw [hshort]
  decide +kernel

end Index

end VideoFingerprint
