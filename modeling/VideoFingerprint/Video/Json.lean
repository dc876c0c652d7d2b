import VideoFingerprint.ConfigFault.Json
import VideoFingerprint.Video.Opening

/-!
The JSON forms of hashing options, of what is known about a video, and of the errors of opening
and hashing one. The time limits and limits of size in options may be left out.
-/

namespace VideoFingerprint

open Json Json.Record

instance : Form CreationOptions where
  read :=
    (CreationOptions.mk <$> field "seconds_per_hash" Form.read <*> field "hash_threads" readU64
    <*> field "max_concurrent_videos" readU64 <*> optional "max_decode_dimension" readU32
    <*> optional "decode_timeout_secs" readU64).reader
  value o :=
    .object [("seconds_per_hash", .float o.interval), ("hash_threads", .natural o.threads),
    ("max_concurrent_videos", .natural o.concurrentVideos),
    ("max_decode_dimension", .orNull (o.maxDimension.map .natural)),
    ("decode_timeout_secs", .orNull (o.timeout.map .natural))]

/-! ### What is known about a video -/

namespace Duration

/-- Seconds and nanoseconds as written; a second or more of nanoseconds is carried over. -/
def readParts : Reader Duration := fun t =>
  match (Prod.mk <$> field "secs" readU64 <*> field "nanos" readU32).read false t with
  | .error e => .error e
  | .ok (seconds, nanos) =>
    match ofNanos? (seconds * nanosPerSecond + nanos) with
    | some d => .ok d
    | none => .error .malformed

instance : Form Duration where
  read := readParts
  value d := .object [("secs", .natural d.seconds), ("nanos", .natural d.nanos)]

end Duration

instance : Form VideoInfo where
  read :=
    ((fun duration size (width, height) rate => VideoInfo.mk duration size width height rate)
      <$> field "duration" Form.read <*> field "file_size" readU64
      <*> field "resolution" (readPair readU32 readU32)
      <*> optional "frame_rate" Form.read).reader
  value i := .object [("duration", Form.value i.duration), ("file_size", .natural i.fileSize),
    ("resolution", .array [.natural i.width, .natural i.height]),
    ("frame_rate", .orNull (i.frameRate.map .float))]

/-! ### Errors -/

namespace HashError

instance : Form HashError where
  read := readVariant [("FrameTooSmall",
    .holding (frameTooSmall <$> field "width" readU32 <*> field "height" readU32).reader)]
  value
    | frameTooSmall width height =>
      .variant "FrameTooSmall"
        (.object [("width", .natural width), ("height", .natural height)])

end HashError

namespace VideoError

def read : Reader VideoError := readVariant [
  ("Open", .holding ((fun path message => cannotOpen (.ofText path) message)
    <$> field "src_path" readText <*> field "error" readText).reader),
  ("Hash", .holding
    (cannotHash <$> field "frame_number" readU64 <*> field "error" Form.read).reader),
  ("Config", .holding fun t => config <$> Form.read t),
  ("ThreadPool", .holding fun t => workers <$> readText t)]

/-- The JSON form of an error. There is none if the error names a path that is no text. -/
def value? : VideoError → Option Value
  | cannotOpen path message => path.text?.map fun text =>
    .variant "Open" (.object [("src_path", .string text), ("error", .string message)])
  | cannotHash frame error => some (.variant "Hash"
      (.object [("frame_number", .natural frame), ("error", Form.value error)]))
  | config fault => some (.variant "Config" (Form.value fault))
  | workers reason => some (.variant "ThreadPool" (.string reason))

end VideoError

namespace InfoError

instance : Form InfoError where
  read := readVariant [("Json", .holding fun t => json <$> readText t),
    ("Number", .holding fun t => number <$> readText t),
    ("Rotation", .holding fun t => rotation <$> readText t)]
  value
    | json reason => .variant "Json" (.string reason)
    | number text => .variant "Number" (.string text)
    | rotation text => .variant "Rotation" (.string text)

end InfoError

namespace ToolError

instance : Form ToolError where
  read := readVariant [
    ("FfmpegNotFound", .bare notInstalled),
    ("Io", .holding fun t => io <$> readText t),
    ("FfmpegInternal", .holding fun t => failed <$> readText t),
    ("Utf8Conversion", .bare notUtf8),
    ("InvalidResolution", .bare noResolution),
    ("TruncatedFrame", .holding (truncatedFrame <$> field "frame_index" readU64
      <*> field "bytes_read" readU64 <*> field "frame_size" readU64).reader),
    ("Timeout", .holding fun t => timedOut <$> readU64 t),
    ("Info", .holding fun t => info <$> Form.read t)]
  value
    | notInstalled => .string "FfmpegNotFound"
    | io kind => .variant "Io" (.string kind)
    | failed reason => .variant "FfmpegInternal" (.string reason)
    | notUtf8 => .string "Utf8Conversion"
    | noResolution => .string "InvalidResolution"
    | truncatedFrame frame bytes frameBytes => .variant "TruncatedFrame" (.object [
        ("frame_index", .natural frame), ("bytes_read", .natural bytes),
        ("frame_size", .natural frameBytes)])
    | timedOut seconds => .variant "Timeout" (.natural seconds)
    | info error => .variant "Info" (Form.value error)

end ToolError

end VideoFingerprint
