import VideoFingerprint.Video.FrameStream
import VideoFingerprint.Video.Hashing

/-!
Opening a video: it is probed, the size and the rate of the frames are settled, and decoding is
started.
-/

namespace VideoFingerprint

/-- Which video is to be decoded, and how: at a rate and in a size other than its own, in gray,
or within a number of seconds. -/
structure DecodeRequest where
  path : FilePath
  rate : Option Float
  maxDimension : Option Nat
  grayscale : Bool
  timeout : Option Nat

namespace DecodeRequest

/-- A side scaled by a factor, to the nearest even number; at least two. -/
def scaledSide (scale : Float) (side : Nat) : Nat :=
  max 2 ((Binary64.roundHalfAway (Float.ofNat side * scale / 2)).toUInt32.toNat * 2)

/-- The size of the frames of a video of the given size. A video whose longer side exceeds the
limit is scaled down; its proportions are kept, up to rounding to even sides. -/
def outputSize (maxDimension : Option Nat) (width height : Nat) : Nat × Nat :=
  match maxDimension with
  | none => (width, height)
  | some limit =>
    let longest := max width height
    if longest ≤ limit ∨ longest = 0 then (width, height)
    else
      let scale := Float.ofNat limit / Float.ofNat longest
      (scaledSide scale width, scaledSide scale height)

def fallbackRate : Float := 25

def maxFrameBytes : Nat := 5 * 1024 * 1024 * 1024

/-- The rate of the frames: the one that was asked for, or else the one of the video. Only a
positive number can be a rate. -/
def frameRate (q : DecodeRequest) (info : VideoInfo) : Float :=
  ((q.rate.or info.frameRate).filter fun rate => rate.isFinite ∧ 0 < rate).getD fallbackRate

/-- The format of the frames of a video, if they have a usable size. The program gives up over
sides whose product does not fit 64 bits. -/
def format (q : DecodeRequest) (info : VideoInfo) : Attempt ToolError StreamFormat :=
  let (width, height) := outputSize q.maxDimension info.width info.height
  let f : StreamFormat := ⟨width, height, q.grayscale, q.frameRate info⟩
  if width = 0 ∨ height = 0 then .ok (.error .noResolution)
  else if UInt64.size ≤ f.frameBytes then .error .frameTooLarge
  else if maxFrameBytes < f.frameBytes then .ok (.error .noResolution)
  else .ok (.ok f)

/-! ### Arguments -/

def probeArguments (path : FilePath) : List FilePath :=
  ["-v", "quiet", "-show_format", "-show_streams", "-print_format", "json", path]

/-- The arguments that ask for the raw frames of a video. -/
def decodeArguments (q : DecodeRequest) (f : StreamFormat) : List FilePath :=
  ["-hide_banner", "-loglevel", "warning", "-nostats", "-i", q.path, "-an",
    "-r", plainText f.rate, "-s", .ofText (toString f.width ++ "x" ++ toString f.height),
    "-pix_fmt", if q.grayscale then "gray" else "rgb24", "-c:v", "rawvideo", "-f",
    "image2pipe", "-"]

/-! ### Opening -/

variable {m : Type → Type} [Monad m] (explain : String → String) (run : ToolRunner m)

/-- The properties of a video, as a program reports them. -/
def probe (path : FilePath) : m (Attempt ToolError VideoInfo) := do
  match ← run .ffprobe (probeArguments path) with
  | .error failure => return .ok (.error (.ofStart failure))
  | .ok r =>
    match r.text with
    | .error e => return .ok (.error e)
    | .ok text => return (Probe.infoOfText explain text).map fun info => info.mapError .info

/-- The time limit of a program that was just started, if there is one and it can be held. -/
def timeLimit? (q : DecodeRequest) (clock : Nat → Int) : Option (Option TimeLimit) :=
  match q.timeout with
  | none => some none
  | some seconds => (TimeLimit.after? seconds clock).map some

/-- The stream of frames of a program that was just started. -/
def stream (q : DecodeRequest) (f : StreamFormat) (r : ToolRun) : Except Abort FrameStream :=
  match q.timeLimit? r.clock with
  | some limit => .ok (.ofRun f limit r)
  | none => .error .timeoutTooLong

def start (q : DecodeRequest) : m (Attempt ToolError (FrameStream × VideoInfo)) := do
  match ← probe explain run q.path with
  | .error abort => return .error abort
  | .ok (.error e) => return .ok (.error e)
  | .ok (.ok info) =>
    match q.format info with
    | .error abort => return .error abort
    | .ok (.error e) => return .ok (.error e)
    | .ok (.ok f) =>
      match ← run .ffmpeg (q.decodeArguments f) with
      | .error failure => return .ok (.error (.ofStart failure))
      | .ok r => return (q.stream f r).map fun s => .ok (s, info)

end DecodeRequest

namespace VideoHashing

variable {m : Type → Type} [Monad m]

def openVideo (explain : String → String) (run : ToolRunner m) (o : CreationOptions)
    (path : FilePath) : m (Attempt VideoError (Decoder Float Image)) := do
  let q : DecodeRequest := ⟨path, none, o.maxDimension, false, o.timeout⟩
  match ← q.start explain run with
  | .error abort => return .error abort
  | .ok (.error e) => return .ok (.error (.cannotOpen path e.message))
  | .ok (.ok (stream, info)) => return .ok (.ok (stream.toDecoder info.duration.toSeconds))

end VideoHashing

end VideoFingerprint
