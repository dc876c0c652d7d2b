import VideoFingerprint.Matching.Config
import VideoFingerprint.Matching.Result

/-!
Candidates for an alignment: pairs of eligible frames whose hashes are within the threshold.
Candidates are tried by rank. Every part of the rank stays the same when query and reference
trade places, so the order of trying does not depend on which video is the query; two
candidates of one rank have their places exchanged.
-/

namespace VideoFingerprint

/-- A pair of eligible frames close enough to match. `p` and `q` are the places of the frames
among the eligible frames of the query and of the reference. -/
structure Candidate where
  p : Nat
  q : Nat
  query : Feature
  reference : Feature
  distance : Nat

namespace Candidate

def skew (c : Candidate) : Nat := if c.p ≤ c.q then c.q - c.p else c.p - c.q

/-- The order of trying: small distance first, then early places, places near each other, and
last the two hashes, the smaller one first. -/
def compareRank (a b : Candidate) : Ordering :=
  (compare a.distance b.distance).then <|
  (compare (a.p + a.q) (b.p + b.q)).then <|
  (compare a.skew b.skew).then <|
  ((Hash.least a.query.hash a.reference.hash).compare
    (Hash.least b.query.hash b.reference.hash)).then <|
  (Hash.greatest a.query.hash a.reference.hash).compare
    (Hash.greatest b.query.hash b.reference.hash)

/-- Two candidates of one rank. -/
def sameRank (a b : Candidate) : Bool := compareRank a b == .eq

/-- A total order that refines the ranks. -/
def sortsBefore (a b : Candidate) : Bool :=
  ((compareRank a b).then <| (compare a.p b.p).then <| compare a.q b.q).isLE

def all (cfg : MatchConfig) (query reference : List Feature) : List Candidate :=
  query.zipIdx.flatMap fun (f, p) => reference.zipIdx.filterMap fun (g, q) =>
    let distance := f.hash.distance g.hash
    if cfg.within distance then some ⟨p, q, f, g, distance⟩ else none

def toPair (c : Candidate) : MatchedPair := ⟨c.query, c.reference, c.distance⟩

/-- `b` continues the run that ends with `a`: both places go on by one. -/
def follows (a b : Candidate) : Bool := b.p = a.p + 1 ∧ b.q = a.q + 1

end Candidate

end VideoFingerprint
