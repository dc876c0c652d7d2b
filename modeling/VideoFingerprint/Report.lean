import VideoFingerprint.Corpus.Index
import VideoFingerprint.Decimal.Fixed
import VideoFingerprint.FilePath
import VideoFingerprint.Matching.Json

/-!
Reports on comparisons and searches, as lines for a reader or as one JSON document. Shares are
shown in percent with two decimals and times in seconds with three. A verbose report of a
comparison also lists the pairs of frames, and one of a search the segments of each hit.
-/

namespace VideoFingerprint

open Json

/-- The form of a report. -/
inductive ReportFormat
  | normal
  | json
deriving DecidableEq

namespace Report

/-! ### Lines -/

def unlines (lines : List String) : String := String.join (lines.map (· ++ "\n"))

def percent (share : Float) : String := Decimal.fixed 2 (share * 100)

def seconds (time : Float) : String := Decimal.fixed 3 time ++ "s"

/-- The part of a video between its first and its last time. -/
def extent (e : Extent) : String := seconds e.firstTime ++ "-" ++ seconds e.lastTime

def segmentLine (s : MatchedSegment) : String :=
  "query " ++ extent s.query ++ "  target " ++ extent s.reference ++ "  (" ++ toString s.length
    ++ " frames, offset " ++ Decimal.fixedSigned 3 s.offset ++ "s)"

def frame (f : Feature) : String :=
  "frame " ++ toString f.frame ++ " (" ++ seconds f.time ++ ")"

def pairLine (p : MatchedPair) : String :=
  frame p.query ++ " <-> " ++ frame p.reference ++ " distance " ++ toString p.distance

/-! ### JSON -/

/-- A JSON document with its fields in the order of their names. -/
def document (fields : List (String × Value)) : String :=
  (Value.object fields).sorted.pretty 0 ++ "\n"

/-! ### Comparisons -/

def comparison (format : ReportFormat) (verbose : Bool) (r : MatchResult) : String :=
  match format with
  | .normal => unlines (
      [percent r.score ++ " Percentage Query Video match",
        percent r.referenceScore ++ " Percentage Target Video match"]
      ++ r.segments.map (fun s => "  " ++ segmentLine s)
      ++ if verbose then r.pairs.map fun p => "    " ++ pairLine p else [])
  | .json => document (
      [("score", .float r.score), ("reference_score", .float r.referenceScore),
        ("eligible_query", .natural r.eligibleQuery),
        ("eligible_reference", .natural r.eligibleReference),
        ("segments", Form.value r.segments)]
      ++ if verbose then [("pairs", Form.value r.pairs)] else [])

def byLine (format : ReportFormat) (m : LineMatch) : String :=
  match format with
  | .normal =>
      unlines [percent m.score ++ " Percentage matched (" ++ toString m.matched ++ " of "
      ++ toString m.compared ++ " compared frames)"]
  | .json => document
      [("score", .float m.score), ("matched", .natural m.matched),
        ("compared", .natural m.compared)]

/-! ### Searches -/

def percentWidth : Nat := 6

def percentColumn (share : Float) : String :=
  Decimal.padLeft percentWidth (percent share) ++ "%"

/-- The first line on a hit, whose name is the path of a file. -/
def hitLine (h : IndexHit FilePath) : String :=
  percentColumn h.result.score ++ " " ++ percentColumn h.result.referenceScore ++ "  "
    ++ h.name.display

def hitLines (verbose : Bool) (h : IndexHit FilePath) : List String :=
  hitLine h :: if verbose then h.result.segments.map fun s => "    " ++ segmentLine s else []

/-- Why a path has no place in a JSON document. -/
def pathNotText : String := "path contains invalid UTF-8 characters"

def hitValue (verbose : Bool) (h : IndexHit FilePath) : Except String Value :=
  match h.name.text? with
  | none => .error pathNotText
  | some path => .ok (.object (
      [("path", .string path), ("score", .float h.result.score),
        ("reference_score", .float h.result.referenceScore)]
      ++ if verbose then [("segments", Form.value h.result.segments)] else []))

/-- The report on a search. A JSON document fails as a whole if the path of a
hit is no text. -/
def search (format : ReportFormat) (verbose : Bool) (hits : List (IndexHit FilePath)) :
    Except String String :=
  match format with
  | .normal => .ok (unlines (hits.flatMap (hitLines verbose)))
  | .json => (hits.mapM (hitValue verbose)).map fun values =>
      (Value.array values).pretty 0 ++ "\n"

end Report

end VideoFingerprint
