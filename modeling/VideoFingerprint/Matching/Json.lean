import VideoFingerprint.Fingerprint.Json
import VideoFingerprint.Matching.Align
import VideoFingerprint.Matching.Config

/-!
The JSON forms of match configurations and of the results of comparing. A configuration that is
read passes the same checks as one that is built.
-/

namespace VideoFingerprint

open Json Json.Record

namespace MatchConfig

def record : Record (Nat × Float × Nat) :=
  (fun threshold minQuality minRun => (threshold, minQuality, minRun)) <$>
    field "distance_threshold" readU32
    <*> field "min_quality" Form.read <*> field "min_match_run_length" readU64

instance : Form MatchConfig where
  read := checked record.reader fun (threshold, minQuality, minRun) =>
    (build threshold minQuality minRun).mapError ConfigFault.message
  value cfg := .object [("distance_threshold", .natural cfg.threshold),
    ("min_quality", Form.value cfg.minQuality), ("min_match_run_length", .natural cfg.minRun)]

end MatchConfig

instance : Form MatchedPair where
  read := (MatchedPair.mk <$> field "query" Form.read <*> field "reference" Form.read
    <*> field "distance" readU32).reader
  value p := .object [("query", Form.value p.query), ("reference", Form.value p.reference),
    ("distance", .natural p.distance)]

namespace MatchedSegment

/-- The fields of a segment: first all frames, then all times. -/
def record : Record MatchedSegment :=
  (fun length q₁ q₂ r₁ r₂ s₁ s₂ t₁ t₂ => ⟨length, ⟨q₁, q₂, s₁, s₂⟩, ⟨r₁, r₂, t₁, t₂⟩⟩)
    <$> field "len" readU64
    <*> field "query_start_frame" readU64 <*> field "query_end_frame" readU64
    <*> field "reference_start_frame" readU64 <*> field "reference_end_frame" readU64
    <*> field "query_start_time" Form.read <*> field "query_end_time" Form.read
    <*> field "reference_start_time" Form.read <*> field "reference_end_time" Form.read

def fields (s : MatchedSegment) : List (String × Value) :=
  [("len", .natural s.length), ("query_start_frame", .natural s.query.firstFrame),
    ("query_end_frame", .natural s.query.lastFrame),
    ("reference_start_frame", .natural s.reference.firstFrame),
    ("reference_end_frame", .natural s.reference.lastFrame),
    ("query_start_time", .float s.query.firstTime),
    ("query_end_time", .float s.query.lastTime),
    ("reference_start_time", .float s.reference.firstTime),
    ("reference_end_time", .float s.reference.lastTime)]

instance : Form MatchedSegment where
  read := record.reader
  value s := .object s.fields

end MatchedSegment

instance : Form MatchResult where
  read := (MatchResult.mk <$> field "pairs" Form.read <*> field "segments" Form.read
    <*> field "score" Form.read <*> field "reference_score" Form.read
    <*> field "eligible_query" readU64 <*> field "eligible_reference" readU64).reader
  value r := .object [("pairs", Form.value r.pairs), ("segments", Form.value r.segments),
    ("score", .float r.score), ("reference_score", .float r.referenceScore),
    ("eligible_query", .natural r.eligibleQuery),
    ("eligible_reference", .natural r.eligibleReference)]

instance : Form LineMatch where
  read := (LineMatch.mk <$> field "compared" readU64 <*> field "matched" readU64).reader
  value m := .object [("compared", .natural m.compared), ("matched", .natural m.matched)]

instance : Form LengthMismatch where
  read := (LengthMismatch.mk <$> field "query" readU64 <*> field "reference" readU64).reader
  value e := .object [("query", .natural e.query), ("reference", .natural e.reference)]

end VideoFingerprint
