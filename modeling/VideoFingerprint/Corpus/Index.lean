import Std.Data.HashMap
import VideoFingerprint.Corpus.Config
import VideoFingerprint.Matching.Align

/-!
An index of stored fingerprints. Every frame of a stored fingerprint, whatever its quality, is
filed under each of its bands; a query is compared only with the fingerprints that share a band
with one of its eligible frames. Filing and looking up give nothing when the settings do not
split a hash into bands.
-/

namespace VideoFingerprint

/-- Stored fingerprints with their names, and for each band the places of the
fingerprints that have it. -/
structure Index (ι : Type) where
  config : IndexConfig
  entries : Array (ι × Fingerprint)
  buckets : Std.HashMap BandKey (Array Nat)

/-- A stored fingerprint that matched a query. -/
structure IndexHit (ι : Type) where
  name : ι
  result : MatchResult

namespace Index

variable {ι : Type}

def empty (config : IndexConfig) : Index ι := ⟨config, #[], ∅⟩

def size (x : Index ι) : Nat := x.entries.size

/-- Adds a place to a bucket, once. -/
def fileUnder (place : Nat) (buckets : Std.HashMap BandKey (Array Nat)) (key : BandKey) :
    Std.HashMap BandKey (Array Nat) :=
  buckets.alter key fun bucket =>
    let bucket := bucket.getD #[]
    some (if bucket.back? = some place then bucket else bucket.push place)

def fileFeature? (config : IndexConfig) (place : Nat)
    (buckets : Std.HashMap BandKey (Array Nat)) (f : Feature) :
    Option (Std.HashMap BandKey (Array Nat)) :=
  (config.keys? f.hash).map fun keys => keys.foldl (fileUnder place) buckets

def insert? (x : Index ι) (name : ι) (p : Fingerprint) : Option (Index ι) :=
  (p.features.foldlM (fileFeature? x.config x.size) x.buckets).map fun buckets =>
    ⟨x.config, x.entries.push (name, p), buckets⟩

def ofEntries? (config : IndexConfig) (entries : List (ι × Fingerprint)) : Option (Index ι) :=
  entries.foldlM (fun x (name, p) => x.insert? name p) (empty config)

def places? (x : Index ι) (fs : List Feature) : Option (List Nat) :=
  (fs.mapM fun f => x.config.keys? f.hash).map fun keys =>
    keys.flatten.flatMap fun key => (x.buckets.getD key #[]).toList

/-- The places of the stored fingerprints that share a band with an eligible frame of the
query, in the order in which they were stored. -/
def shortlistPlaces? (x : Index ι) (cfg : MatchConfig) (query : Fingerprint) :
    Option (List Nat) :=
  (x.places? (query.eligible cfg.minQuality)).map fun places =>
    let marks :=
      places.foldl (fun marks i => marks.setIfInBounds i true) (Array.replicate x.size false)
    (List.range x.size).filter fun i => marks.getD i false

/-- The names of the stored fingerprints that share a band with an eligible
frame of the query. -/
def shortlist? (x : Index ι) (cfg : MatchConfig) (query : Fingerprint) : Option (List ι) :=
  (x.shortlistPlaces? cfg query).map fun places =>
    places.filterMap fun i => x.entries[i]?.map Prod.fst

/-- The match of a query with one stored fingerprint, if it counts. -/
def hit? (x : Index ι) (cfg : MatchConfig) (query : Fingerprint) (entry : ι × Fingerprint) :
    Option (IndexHit ι) :=
  let result := matchFingerprints cfg query entry.2
  if result.isMatch ∧ x.config.minScore ≤ result.score then some ⟨entry.1, result⟩ else none

/-- Hits by falling score; equal scores keep their order. -/
def rankHits (hits : List (IndexHit ι)) : List (IndexHit ι) :=
  hits.mergeSort fun a b => Binary64.sortsBefore b.result.score a.result.score

/-- The stored fingerprints that match a query, best first. -/
def query? (x : Index ι) (cfg : MatchConfig) (query : Fingerprint) :
    Option (List (IndexHit ι)) :=
  (x.shortlistPlaces? cfg query).map fun places =>
    rankHits ((places.filterMap fun i => x.entries[i]?).filterMap (x.hit? cfg query))

end Index

end VideoFingerprint
