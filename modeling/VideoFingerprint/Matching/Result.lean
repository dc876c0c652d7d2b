import VideoFingerprint.Fingerprint.Basic

/-!
What a comparison finds: pairs of frames, the segments that runs of pairs form, and how much of
each side is covered. A result can be read from either side; `swapped` changes the side.
-/

namespace VideoFingerprint

deriving instance BEq for Feature

/-- A query frame and the reference frame it was aligned with. -/
structure MatchedPair where
  query : Feature
  reference : Feature
  distance : Nat
deriving BEq

def MatchedPair.swapped (p : MatchedPair) : MatchedPair := ⟨p.reference, p.query, p.distance⟩

/-- The part of a video between two frames, both included. -/
structure Extent where
  firstFrame : Nat
  lastFrame : Nat
  firstTime : Float
  lastTime : Float
deriving BEq

def Extent.between (first last : Feature) : Extent :=
  ⟨first.frame, last.frame, first.time, last.time⟩

/-- A run of consecutive matching frames, with its extent in both videos. -/
structure MatchedSegment where
  length : Nat
  query : Extent
  reference : Extent
deriving BEq

namespace MatchedSegment

/-- The segment of a run of pairs; an empty run has none. -/
def ofPairs? (pairs : List MatchedPair) : Option MatchedSegment := do
  let first ← pairs.head?
  let last ← pairs.getLast?
  return ⟨pairs.length, .between first.query last.query,
    .between first.reference last.reference⟩

/-- How much later the content starts in the reference, in seconds. -/
def offset (s : MatchedSegment) : Float := s.reference.firstTime - s.query.firstTime

def swapped (s : MatchedSegment) : MatchedSegment := ⟨s.length, s.reference, s.query⟩

end MatchedSegment

/-- The outcome of comparing a query with a reference. The scores are the parts of the eligible
frames that the segments cover, from zero to one. -/
structure MatchResult where
  pairs : List MatchedPair
  segments : List MatchedSegment
  score : Float
  referenceScore : Float
  eligibleQuery : Nat
  eligibleReference : Nat
deriving BEq

namespace MatchResult

def isMatch (r : MatchResult) : Bool := !r.segments.isEmpty

/-- The number of frames in segments, which is the same on both sides. -/
def matchedFrames (r : MatchResult) : Nat := r.pairs.length

/-- The result of the comparison made the other way round. -/
def swapped (r : MatchResult) : MatchResult where
  pairs := (r.pairs.map MatchedPair.swapped).mergeSort fun a b => a.query.frame ≤ b.query.frame
  segments := (r.segments.map MatchedSegment.swapped).mergeSort fun a b =>
    a.query.firstFrame ≤ b.query.firstFrame
  score := r.referenceScore
  referenceScore := r.score
  eligibleQuery := r.eligibleReference
  eligibleReference := r.eligibleQuery

end MatchResult

/-- A part of a whole as a fraction; the whole may be empty. -/
def coverage (part whole : Nat) : Float :=
  if whole = 0 then 0 else Float.ofNat part / Float.ofNat whole

end VideoFingerprint
