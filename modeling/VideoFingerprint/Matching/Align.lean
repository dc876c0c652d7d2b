import VideoFingerprint.Matching.Chain

/-!
Comparing two fingerprints. The eligible frames are aligned in order, best matches first, and
runs of consecutive matching frames become segments. Frames can also be compared line by line,
without aligning.
-/

namespace VideoFingerprint

/-- The candidates of a comparison in the order of trying. -/
def rankedCandidates (cfg : MatchConfig) (query reference : List Feature) : List Candidate :=
  (Candidate.all cfg query reference).mergeSort Candidate.sortsBefore

/-- The candidates that the alignment takes, in the order of the query. -/
def acceptedCandidates (cfg : MatchConfig) (query reference : List Feature) : List Candidate :=
  let sorted := rankedCandidates cfg query reference
  let chain := Chain.ofSorted reference.length sorted
  (sorted.filter fun c => chain.contains c.p c.q).mergeSort fun a b => a.p ≤ b.p

/-- The runs of accepted candidates that are long enough to count. -/
def matchedRuns (cfg : MatchConfig) (query reference : List Feature) :
    List (List MatchedPair) :=
  (((acceptedCandidates cfg query reference).splitBy Candidate.follows).filter fun run =>
    cfg.minRun ≤ run.length).map fun run => run.map Candidate.toPair

def MatchResult.ofRuns (runs : List (List MatchedPair))
    (eligibleQuery eligibleReference : Nat) :
    MatchResult where
  pairs := runs.flatten
  segments := runs.filterMap MatchedSegment.ofPairs?
  score := coverage runs.flatten.length eligibleQuery
  referenceScore := coverage runs.flatten.length eligibleReference
  eligibleQuery := eligibleQuery
  eligibleReference := eligibleReference

def matchFingerprints (cfg : MatchConfig) (query reference : Fingerprint) : MatchResult :=
  let queryFrames := query.eligible cfg.minQuality
  let referenceFrames := reference.eligible cfg.minQuality
  .ofRuns (matchedRuns cfg queryFrames referenceFrames) queryFrames.length
    referenceFrames.length

/-! ### Line by line -/

/-- The outcome of comparing frame by frame: the number of places where both frames are
eligible, and how many of them match. -/
structure LineMatch where
  compared : Nat
  matched : Nat
deriving DecidableEq

def LineMatch.score (m : LineMatch) : Float := coverage m.matched m.compared

/-- Fingerprints of different lengths cannot be compared frame by frame. -/
structure LengthMismatch where
  query : Nat
  reference : Nat
deriving DecidableEq

def LengthMismatch.message (e : LengthMismatch) : String :=
  "cannot compare sequences line by line: lengths differ (" ++ toString e.query ++ " vs "
    ++ toString e.reference ++ ")"

/-- Compares feature `i` of the query with feature `i` of the reference. -/
def matchByLine (cfg : MatchConfig) (query reference : Fingerprint) :
    Except LengthMismatch LineMatch :=
  if query.size = reference.size then
    let compared := (query.features.zip reference.features).filter fun (f, g) =>
      ¬ (f.quality < cfg.minQuality) ∧ ¬ (g.quality < cfg.minQuality)
    let matched := compared.filter fun (f, g) => cfg.within (f.hash.distance g.hash)
    .ok ⟨compared.length, matched.length⟩
  else .error ⟨query.size, reference.size⟩

end VideoFingerprint
