import Mathlib.Data.List.Basic
import VideoFingerprint.Corpus.Index

/-!
What the buckets of an index hold. After any insertions each bucket lists, in rising order, the
places of the fingerprints with a frame that has the band of the bucket; so the shortlist of a
query holds exactly the places of fingerprints that agree with an eligible frame on a whole
band.
-/

namespace VideoFingerprint

namespace IndexConfig

variable {cfg : IndexConfig}

def keys (cfg : IndexConfig) (h : Hash) : List BandKey :=
  (List.range cfg.bands).map fun i => ⟨i, h.band (i * cfg.bandWidth) cfg.bandWidth⟩

theorem keys?_eq_some (hsplits : cfg.splits = true) (h : Hash) :
    cfg.keys? h = some (cfg.keys h) :=
  if_pos hsplits

theorem mem_keys_iff {h : Hash} {key : BandKey} :
    key ∈ cfg.keys h ↔
      key.band < cfg.bands ∧ h.band (key.band * cfg.bandWidth) cfg.bandWidth = key.value := by
  simp only [keys, List.mem_map, List.mem_range]
  constructor
  · rintro ⟨i, hi, rfl⟩
    exact ⟨hi, rfl⟩
  · rintro ⟨hlt, hvalue⟩
    exact ⟨key.band, hlt, by rw [hvalue]⟩

theorem exists_key_iff {a b : Hash} :
    (∃ key ∈ cfg.keys a, key ∈ cfg.keys b) ↔
      ∃ i < cfg.bands, a.band (i * cfg.bandWidth) cfg.bandWidth =
        b.band (i * cfg.bandWidth) cfg.bandWidth := by
  simp only [mem_keys_iff]
  constructor
  · rintro ⟨key, ⟨hlt, ha⟩, -, hb⟩
    exact ⟨key.band, hlt, ha.trans hb.symm⟩
  · rintro ⟨i, hlt, heq⟩
    exact ⟨⟨i, a.band (i * cfg.bandWidth) cfg.bandWidth⟩, ⟨hlt, rfl⟩, hlt, heq.symm⟩

theorem build_eq_ok_iff {bands : Nat} {minScore : Float} :
    build bands minScore = .ok cfg ↔ cfg = ⟨bands, minScore⟩ ∧ cfg.fault? = none := by
  unfold build
  split
  · rename_i fault hfault
    constructor
    · intro h
      cases h
    · rintro ⟨rfl, hnone⟩
      rw [hnone] at hfault
      cases hfault
  · rename_i hnone
    rw [Except.ok.injEq, eq_comm]
    exact ⟨fun h => ⟨h, h ▸ hnone⟩, And.left⟩

theorem bands_mul_bandWidth (h : cfg.fault? = none) :
    cfg.bands * cfg.bandWidth = Hash.size := by
  unfold fault? at h
  split at h
  · cases h
  · rename_i hbands
    have hdvd : Hash.size % cfg.bands = 0 := by
      by_contra hne
      exact hbands (Or.inr (Or.inl hne))
    exact Nat.mul_div_cancel' (Nat.dvd_of_mod_eq_zero hdvd)

end IndexConfig

namespace Index

variable {ι : Type} {x : Index ι}

/-! ### Filing -/

/-- A bucket with a place added at its end, once. -/
def addPlace (place : Nat) (bucket : Array Nat) : Array Nat :=
  if bucket.back? = some place then bucket else bucket.push place

theorem addPlace_addPlace (place : Nat) (bucket : Array Nat) :
    addPlace place (addPlace place bucket) = addPlace place bucket := by
  unfold addPlace
  split
  · rfl
  · rw [if_pos (Array.back?_push ..)]

theorem getD_fileUnder (place : Nat) (buckets : Std.HashMap BandKey (Array Nat))
    (k key : BandKey) :
    (fileUnder place buckets k).getD key #[] =
      if k = key then addPlace place (buckets.getD key #[]) else buckets.getD key #[] := by
  rw [fileUnder, Std.HashMap.getD_alter]
  by_cases h : k = key
  · subst h
    simp [addPlace, Std.HashMap.getD_eq_getD_getElem?]
  · simp [h]

theorem getD_foldl_fileUnder (place : Nat) (keys : List BandKey) (key : BandKey) :
    ∀ buckets : Std.HashMap BandKey (Array Nat),
      (keys.foldl (fileUnder place) buckets).getD key #[] =
        if key ∈ keys then addPlace place (buckets.getD key #[])
        else buckets.getD key #[] := by
  induction keys with
  | nil => intro buckets; simp
  | cons k keys ih =>
      intro buckets
      rw [List.foldl_cons, ih, getD_fileUnder]
      by_cases hk : k = key
      · subst hk
        simp [addPlace_addPlace]
      · simp [hk, Ne.symm hk]

def keysOf (config : IndexConfig) (p : Fingerprint) : List BandKey :=
  p.features.flatMap fun f => config.keys f.hash

theorem foldlM_fileFeature? {config : IndexConfig} (hsplits : config.splits = true)
    (place : Nat) (fs : List Feature) :
    ∀ buckets : Std.HashMap BandKey (Array Nat),
      fs.foldlM (fileFeature? config place) buckets =
        some ((fs.flatMap fun f => config.keys f.hash).foldl (fileUnder place) buckets) := by
  induction fs with
  | nil => intro buckets; rfl
  | cons f fs ih =>
      intro buckets
      rw [List.foldlM_cons, fileFeature?, IndexConfig.keys?_eq_some hsplits, List.flatMap_cons,
        List.foldl_append]
      exact ih _

def inserted (x : Index ι) (name : ι) (p : Fingerprint) : Index ι :=
  ⟨x.config, x.entries.push (name, p), (keysOf x.config p).foldl (fileUnder x.size) x.buckets⟩

theorem insert?_eq_some (hsplits : x.config.splits = true) (name : ι) (p : Fingerprint) :
    x.insert? name p = some (x.inserted name p) := by
  rw [insert?, foldlM_fileFeature? hsplits]
  rfl

/-! ### The buckets after any insertions -/

/-- The stored fingerprint at a place has a frame with the given band. -/
def hasKey (x : Index ι) (key : BandKey) (i : Nat) : Bool :=
  x.entries[i]?.any fun entry => (keysOf x.config entry.2).contains key

/-- Each bucket lists the places of the fingerprints that have its band, in rising order. -/
def Filed (x : Index ι) : Prop :=
  ∀ key, (x.buckets.getD key #[]).toList = (List.range x.size).filter (x.hasKey key)

theorem filed_empty (config : IndexConfig) : (empty config : Index ι).Filed := by
  intro key
  simp [empty, size]

theorem Filed.inserted (h : x.Filed) (name : ι) (p : Fingerprint) :
    (x.inserted name p).Filed := by
  intro key
  have hold : ∀ i ∈ List.range x.size, (x.inserted name p).hasKey key i = x.hasKey key i := by
    intro i hi
    have hne : i ≠ x.entries.size := Nat.ne_of_lt (List.mem_range.1 hi)
    simp only [hasKey, Index.inserted, Array.getElem?_push, hne, if_false]
  have hnew : (x.inserted name p).hasKey key x.size = (keysOf x.config p).contains key := by
    simp only [hasKey, Index.inserted, size, Array.getElem?_push, if_true, Option.any_some]
  have hsize : (x.inserted name p).size = x.size + 1 := by
    simp only [size, Index.inserted, Array.size_push]
  have hlast : (x.buckets.getD key #[]).back? ≠ some x.size := by
    intro hback
    have hmem : x.size ∈ (x.buckets.getD key #[]).toList := by
      rw [Array.mem_toList_iff]
      exact Array.mem_of_back? hback
    rw [h key, List.mem_filter, List.mem_range] at hmem
    exact Nat.lt_irrefl _ hmem.1
  rw [hsize, List.range_succ, List.filter_append, List.filter_congr hold, ← h key]
  show (((keysOf x.config p).foldl (fileUnder x.size) x.buckets).getD key #[]).toList = _
  rw [getD_foldl_fileUnder]
  by_cases hkey : key ∈ keysOf x.config p
  · simp [hkey, hnew, addPlace, hlast]
  · simp [hkey, hnew]

theorem foldlM_insert? (entries : List (ι × Fingerprint)) :
    ∀ x : Index ι, x.config.splits = true → x.Filed →
      ∃ y : Index ι, entries.foldlM (fun x (name, p) => x.insert? name p) x = some y ∧
        y.config = x.config ∧ y.entries.toList = x.entries.toList ++ entries ∧ y.Filed := by
  induction entries with
  | nil => exact fun x _ hfiled => ⟨x, rfl, rfl, by simp, hfiled⟩
  | cons entry entries ih =>
      intro x hsplits hfiled
      obtain ⟨name, p⟩ := entry
      obtain ⟨y, hfold, hconfig, hentries, hy⟩ :=
        ih (x.inserted name p) hsplits (hfiled.inserted name p)
      refine ⟨y, ?_, hconfig, ?_, hy⟩
      · rw [List.foldlM_cons]
        simp only [insert?_eq_some hsplits]
        exact hfold
      · rw [hentries]
        simp [Index.inserted]

theorem ofEntries?_eq_some {config : IndexConfig} (hsplits : config.splits = true)
    (entries : List (ι × Fingerprint)) :
    ∃ x : Index ι, ofEntries? config entries = some x ∧ x.config = config ∧
      x.entries.toList = entries ∧ x.Filed := by
  obtain ⟨x, hfold, hconfig, hentries, hfiled⟩ :=
    foldlM_insert? entries (empty config) hsplits (filed_empty config)
  exact ⟨x, hfold, hconfig, by simpa [empty] using hentries, hfiled⟩

/-! ### The shortlist -/

theorem places?_eq_some (hsplits : x.config.splits = true) (fs : List Feature) :
    x.places? fs = some ((fs.flatMap fun f => x.config.keys f.hash).flatMap fun key =>
      (x.buckets.getD key #[]).toList) := by
  have hkeys : fs.mapM (fun f => x.config.keys? f.hash) =
      some (fs.map fun f => x.config.keys f.hash) := by
    simp only [IndexConfig.keys?_eq_some hsplits]
    exact List.mapM_pure
  rw [places?, hkeys, Option.map_some, ← List.flatMap_def]

theorem getD_foldl_marks (places : List Nat) (i : Nat) :
    ∀ marks : Array Bool, i < marks.size →
      ((places.foldl (fun marks i => marks.setIfInBounds i true) marks).getD i false = true ↔
        i ∈ places ∨ marks.getD i false = true) := by
  induction places with
  | nil => intro marks _; simp
  | cons j places ih =>
      intro marks hi
      rw [List.foldl_cons, ih _ (by simpa using hi), List.mem_cons]
      have hset : (marks.setIfInBounds j true).getD i false = true ↔
          i = j ∨ marks.getD i false = true := by
        simp only [Array.getD_eq_getD_getElem?, Array.getElem?_setIfInBounds]
        by_cases hji : j = i
        · subst hji
          simp [hi]
        · simp [hji, Ne.symm hji]
      rw [hset]
      tauto

/-- A stored fingerprint agrees with one of the given frames on a whole band. -/
def SharesBand (config : IndexConfig) (fs : List Feature) (p : Fingerprint) : Prop :=
  ∃ f ∈ fs, ∃ g ∈ p.features, ∃ i < config.bands,
    f.hash.band (i * config.bandWidth) config.bandWidth =
      g.hash.band (i * config.bandWidth) config.bandWidth

/-- The shortlist lists the places of the fingerprints that share a band with an eligible frame
of the query, each once and in the order in which they were stored. -/
theorem shortlistPlaces?_eq_some (hsplits : x.config.splits = true) (hfiled : x.Filed)
    (cfg : MatchConfig) (query : Fingerprint) :
    ∃ keep : Nat → Bool,
      x.shortlistPlaces? cfg query = some ((List.range x.size).filter keep) ∧
      ∀ i name p, x.entries[i]? = some (name, p) →
        (keep i = true ↔ SharesBand x.config (query.eligible cfg.minQuality) p) := by
  rw [shortlistPlaces?, places?_eq_some hsplits]
  refine ⟨_, rfl, fun i name p hentry => ?_⟩
  have hi : i < x.size := (Array.getElem?_eq_some_iff.1 hentry).1
  have hbucket : ∀ key, i ∈ (x.buckets.getD key #[]).toList ↔ key ∈ keysOf x.config p := by
    intro key
    rw [hfiled key, List.mem_filter, List.mem_range, hasKey, hentry, Option.any_some,
      List.contains_iff_mem]
    exact and_iff_right hi
  rw [getD_foldl_marks _ _ _ (by simpa using hi)]
  simp only [Array.getD_eq_getD_getElem?, Array.getElem?_replicate, hi, if_true,
    Option.getD_some, Bool.false_eq_true, or_false, List.mem_flatMap, hbucket, keysOf]
  constructor
  · rintro ⟨key, ⟨f, hf, hkey⟩, g, hg, hkey'⟩
    exact ⟨f, hf, g, hg, IndexConfig.exists_key_iff.1 ⟨key, hkey, hkey'⟩⟩
  · rintro ⟨f, hf, g, hg, hband⟩
    obtain ⟨key, hkey, hkey'⟩ := IndexConfig.exists_key_iff.2 hband
    exact ⟨key, ⟨f, hf, hkey⟩, g, hg, hkey'⟩

end Index

end VideoFingerprint
