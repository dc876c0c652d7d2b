import VideoFingerprint.Frame.Image
import VideoFingerprint.Sampling.Decoder
import VideoFingerprint.Video.Tool

/-!
Frames from the output of a decoding program. The output is one frame after the other, without
anything in between, and arrives in pieces of any length. It may end between two frames, where
the way the program ended decides whether that is the end of the video, or within a frame;
reading may fail, and a time limit may pass before. After the first thing that is no frame,
nothing more comes.
-/

namespace VideoFingerprint

/-! ### Buffers -/

/-- A time limit that has passed ends reading. -/
def overdue? (limit : Option TimeLimit) : Option ToolError :=
  (limit.filter TimeLimit.hasPassed).map fun l => .timedOut l.seconds

/-- What comes of filling a buffer: its bytes, or the error that ended it; and the time limit
and the output afterwards. -/
structure Filling where
  bytes : Except ToolError (List UInt8)
  limit : Option TimeLimit
  output : List OutputPiece

/-- Fills a buffer of `need` bytes from the front of the output; it stays shorter if the output
ends. Under a time limit the clock is looked at before each read. -/
def fill : (need : Nat) → Option TimeLimit → List OutputPiece → Filling
  | 0, limit, pieces => ⟨.ok [], limit, pieces⟩
  | need + 1, limit, pieces =>
    let looked := limit.map TimeLimit.looked
    match overdue? limit, pieces with
    | some e, _ => ⟨.error e, looked, pieces⟩
    | none, [] => ⟨.ok [], looked, []⟩
    | none, .interrupted :: rest => fill (need + 1) looked rest
    | none, .failed kind :: rest => ⟨.error (.io kind), looked, rest⟩
    | none, .bytes chunk :: rest =>
      if chunk.isEmpty then ⟨.ok [], looked, rest⟩
      else match chunk.drop (need + 1) with
        | [] =>
          let filling := fill (need + 1 - chunk.length) looked rest
          { filling with bytes := filling.bytes.map (chunk ++ ·) }
        | left => ⟨.ok (chunk.take (need + 1)), looked, .bytes left :: rest⟩

def byteCount (pieces : List OutputPiece) : Nat := (pieces.flatMap OutputPiece.content).length

theorem byteCount_fill_le {need : Nat} {limit : Option TimeLimit} {pieces : List OutputPiece}
    {bytes : List UInt8} (h : (fill need limit pieces).bytes = .ok bytes) :
    bytes.length + byteCount (fill need limit pieces).output ≤ byteCount pieces := by
  fun_induction fill need limit pieces generalizing bytes with
  | case1 limit pieces => cases h; simp
  | case2 => cases h
  | case3 => cases h; simp
  | case4 =>
      rename_i ih
      simpa [byteCount, OutputPiece.content] using ih h
  | case5 => cases h
  | case6 => cases h; simp [byteCount]
  | case7 =>
      rename_i chunk rest _ _ _ filling ih
      cases hbytes : filling.bytes with
      | error e => simp [hbytes, Except.map] at h
      | ok more =>
          obtain rfl : chunk ++ more = bytes := by simpa [hbytes, Except.map] using h
          have := ih hbytes
          subst filling
          simp only [byteCount, List.flatMap_cons, List.length_append,
            OutputPiece.content] at *
          omega
  | case8 =>
      cases h
      simp only [byteCount, List.flatMap_cons, List.length_append, OutputPiece.content,
        List.length_take, List.length_drop]
      omega

/-! ### The format of a stream -/

/-- The size of the frames of a stream, whether they are gray or in color, and the number of
frames in a second. -/
structure StreamFormat where
  width : Nat
  height : Nat
  grayscale : Bool
  rate : Float

namespace StreamFormat

def channels (f : StreamFormat) : Channels := if f.grayscale then .gray else .rgb

/-- The number of bytes in a frame. -/
def frameBytes (f : StreamFormat) : Nat := f.width * f.height * f.channels.count

/-- The picture of as many bytes as a frame has. -/
def image? (f : StreamFormat) (bytes : List UInt8) : Option Image :=
  Image.ofSamples? f.width f.height f.channels (.bytes ⟨bytes.toArray⟩)

end StreamFormat

/-! ### Streams -/

/-- A frame of a stream, with its place in the stream. -/
structure StreamFrame where
  index : Nat
  frame : DecodedFrame Float Image

/-- The output of a decoding program that is read frame by frame: what is still to be read, the
end that the program is going to have, and the number of frames that have been read. -/
structure FrameStream where
  format : StreamFormat
  limit : Option TimeLimit
  output : List OutputPiece
  exit : ToolExit
  count : Nat
  finished : Bool

namespace FrameStream

def ofRun (format : StreamFormat) (limit : Option TimeLimit) (r : ToolRun) : FrameStream :=
  ⟨format, limit, r.output, r.exit, 0, false⟩

def finish (s : FrameStream) : FrameStream := { s with finished := true }

/-- Waits for the decoding program to end, under a time limit no longer than that allows. -/
def wait (s : FrameStream) : Except ToolError ExitStatus :=
  match s.limit with
  | some l => s.exit.until l.seconds l.lastMoment
  | none => s.exit.status.mapError .io

/-- The error that follows the last frame if the decoding program failed, or does not end. -/
def failure? (s : FrameStream) : Option ToolError :=
  match s.wait with
  | .error e => some e
  | .ok status =>
    if status.isSuccess then none
    else some (.failed
      ("ffmpeg exited with " ++ status.description ++ " after " ++ toString s.count ++
        " frames"))

/-- The next frame or the error that ends the stream, and the stream after it. -/
def next (s : FrameStream) : Option (Except ToolError StreamFrame) × FrameStream :=
  if s.finished then (none, s)
  else
    let filling := fill s.format.frameBytes s.limit s.output
    let s := { s with limit := filling.limit, output := filling.output }
    match filling.bytes with
    | .error e => (some (.error e), s.finish)
    | .ok bytes =>
      if bytes.isEmpty then (s.failure?.map .error, s.finish)
      else if bytes.length < s.format.frameBytes then
        (some (.error (.truncatedFrame s.count bytes.length s.format.frameBytes)), s.finish)
      else match s.format.image? bytes with
        | none => (none, s.finish)
        | some image =>
          (some (.ok ⟨s.count, ⟨image, Float.ofNat s.count / s.format.rate⟩⟩),
            { s with count := s.count + 1 })

theorem byteCount_lt_of_next {s s' : FrameStream} {f : StreamFrame}
    (h : s.next = (some (.ok f), s')) : byteCount s'.output < byteCount s.output := by
  unfold next at h
  split at h
  · cases h
  · dsimp only at h
    split at h
    · cases h
    · rename_i bytes hbytes
      split at h
      · obtain ⟨e, -, herror⟩ := Option.map_eq_some_iff.1 (congrArg Prod.fst h)
        cases herror
      · rename_i hne
        split at h
        · cases h
        · split at h
          · cases h
          · cases h
            have := byteCount_fill_le hbytes
            have : 0 < bytes.length := List.length_pos_iff.2 (by simpa using hne)
            dsimp only
            omega

/-- All that the stream gives until it ends. -/
def items (s : FrameStream) : List (Except ToolError StreamFrame) :=
  match _h : s.next with
  | (none, _) => []
  | (some (.error e), _) => [.error e]
  | (some (.ok f), s') => .ok f :: s'.items
termination_by byteCount s.output
decreasing_by exact byteCount_lt_of_next _h

def answer : Except ToolError StreamFrame → DecoderAnswer Float Image
  | .ok f => ⟨.frame f.frame, false⟩
  | .error e => ⟨.failed e.message, false⟩

/-- The stream as the decoder of a video of known length. -/
def toDecoder (s : FrameStream) (duration : Float) : Decoder Float Image :=
  ⟨s.items.map answer, some duration⟩

end FrameStream

end VideoFingerprint
