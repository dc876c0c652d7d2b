import VideoFingerprint.Decimal.Literal
import VideoFingerprint.Json.Form
import VideoFingerprint.Text.Blank
import VideoFingerprint.Text.Integer
import VideoFingerprint.Video.Abort
import VideoFingerprint.Video.Info

/-!
Reading the report of a probed video. The report is a JSON object with the streams of the video
and the properties of the file; only the first video stream counts. Numbers of the file come as
texts, and a stored picture may have to be turned by quarter turns to be shown.
-/

namespace VideoFingerprint

/-- The number of characters that are kept of what another program says about an error. -/
def keptErrorLength : Nat := 500

def shortened (text : String) : String := String.ofList (text.toList.take keptErrorLength)

/-- Why a report says nothing usable about a video. -/
inductive InfoError
  | json (reason : String)
  | number (text : String)
  | rotation (text : String)

def InfoError.message : InfoError → String
  | .json reason => "Malformed ffprobe output: " ++ reason
  | .number text => "Malformed number in ffprobe output: " ++ text
  | .rotation text => "Unexpected video rotation: " ++ text

namespace Probe

open Json Json.Record

/-- A rotation as written: a number of degrees, or a text that should write one. -/
inductive Rotation
  | degrees (n : Int)
  | text (s : String)

/-- A stream of a video, as far as it is of interest. The rotations stand in a list of
additional data. -/
structure Stream where
  kind : Option String
  width : Option Nat
  height : Option Nat
  averageRate : Option String
  baseRate : Option String
  rotations : List (Option Rotation)

/-- A whole report: the streams, and the duration and the size of the file. -/
structure Report where
  streams : List Stream
  duration : Option String
  size : Option String

/-! ### The form of a report -/

def readRotation : Reader Rotation := fun t =>
  match readI64 t with
  | .ok n => .ok (.degrees n)
  | .error _ => (readText t).map .text

def streamRecord : Record Stream :=
  Stream.mk <$> optional "codec_type" readText
    <*> optional "width" readU64 <*> optional "height" readU64
    <*> optional "avg_frame_rate" readText <*> optional "r_frame_rate" readText
    <*> defaulted "side_data_list" (readList (optional "rotation" readRotation).reader) []

def fileRecord : Record (Option String × Option String) :=
  Prod.mk <$> optional "duration" readText <*> optional "size" readText

def reportRecord : Record Report :=
  (fun streams (duration, size) => ⟨streams, duration, size⟩)
    <$> defaulted "streams" (readList streamRecord.reader) []
    <*> defaulted "format" fileRecord.reader (none, none)

/-! ### What a report says -/

def readDuration (text : String) : Attempt InfoError Duration :=
  match Decimal.parseLiteral (Text.trimmed text) with
  | .error e => .ok (.error (.number (text ++ ": " ++ e.message)))
  | .ok seconds =>
    match Duration.ofSeconds? seconds with
    | some d => .ok (.ok d)
    | none => .error .durationTooLong

def readSize (text : String) : Except InfoError Nat :=
  (Text.parseNatural Text.maxU64 (Text.trimmed text)).mapError fun e =>
    .number (text ++ ": " ++ e.message)

/-- A rate written as a quotient, if it is a positive number; `0/0` stands for
an unknown one. -/
def rate? (text : String) : Option Float :=
  let cs := text.toList
  match cs.dropWhile (· ≠ '/') with
  | [] => none
  | _ :: rest => do
    let num ← Decimal.literal? (String.ofList (Text.trim (cs.takeWhile (· ≠ '/'))))
    let den ← Decimal.literal? (String.ofList (Text.trim rest))
    let rate := num / den
    if rate.isFinite ∧ 0 < rate then some rate else none

def Rotation.degrees? : Rotation → Except InfoError Int
  | .degrees n => .ok n
  | .text s =>
    match Text.int64? (Text.trimmed s) with
    | some n => .ok n
    | none => .error (.rotation s)

namespace Stream

def isVideo (s : Stream) : Bool := s.kind = some "video"

/-- A side of a picture; without one, or with one beyond 32 bits, it counts as zero. -/
def side (n : Option Nat) : Nat := (n.filter (· < UInt32.size)).getD 0

/-- The first rotation that is given, or none at all. -/
def rotation (s : Stream) : Except InfoError Int :=
  match s.rotations.findSome? id with
  | some r => r.degrees?
  | none => .ok 0

/-- The width and height in which the stream is shown: a quarter turn swaps the sides. -/
def shownResolution (s : Stream) : Except InfoError (Nat × Nat) :=
  match s.rotation with
  | .error e => .error e
  | .ok degrees =>
    if degrees % 180 = 0 then .ok (side s.width, side s.height)
    else if degrees % 180 = 90 then .ok (side s.height, side s.width)
    else .error (.rotation (toString degrees))

/-- The frame rate of the stream: the average one, or else the base rate. -/
def frameRate (s : Stream) : Option Float :=
  [s.averageRate, s.baseRate].findSome? fun r => r.bind rate?

end Stream

/-- The properties of the video of a report. Of several faults the first is reported, in the
order duration, size, rotation. -/
def Report.info (r : Report) : Attempt InfoError VideoInfo :=
  match r.duration.elim (.ok (.ok .zero)) readDuration with
  | .error abort => .error abort
  | .ok (.error e) => .ok (.error e)
  | .ok (.ok duration) => .ok do
    let fileSize ← r.size.elim (.ok 0) readSize
    match r.streams.find? Stream.isVideo with
    | none => return ⟨duration, fileSize, 0, 0, none⟩
    | some s =>
      let (width, height) ← s.shownResolution
      return ⟨duration, fileSize, width, height, s.frameRate⟩

/-- The properties of the video that a report in JSON describes. The JSON reader explains in
its own words what is wrong with a text that is no report. -/
def infoOfText (explain : String → String) (text : String) : Attempt InfoError VideoInfo :=
  match readDocument reportRecord.reader text with
  | .error _ => .ok (.error (.json (shortened (explain text))))
  | .ok report => report.info

end Probe

end VideoFingerprint
