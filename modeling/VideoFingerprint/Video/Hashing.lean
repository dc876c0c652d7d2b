import VideoFingerprint.FilePath
import VideoFingerprint.Frame.Hashing
import VideoFingerprint.Sampling.Sampler
import VideoFingerprint.Video.Abort
import VideoFingerprint.Video.Options

/-!
Fingerprinting the frames of a decoder. The sampler picks the frames, each picked frame is
hashed, and the features are put in decode order. Frames may be hashed one after the other or
by several workers at once; then the hashes arrive in an order of their own, which must not
show in the fingerprint. A decoder that fails half-way is no error: what was hashed before is
kept.
-/

namespace VideoFingerprint

/-- Why a video has no fingerprint. -/
inductive VideoError
  | cannotOpen (path : FilePath) (message : String)
  | cannotHash (frame : Nat) (error : HashError)
  | config (fault : ConfigFault)
  | workers (reason : String)

def VideoError.message : VideoError → String
  | .cannotOpen path message => "Failed to open video " ++ path.display ++ ": " ++ message
  | .cannotHash frame error =>
      "Failed to hash frame " ++ toString frame ++ ": " ++ error.message
  | .config fault => fault.message
  | .workers reason => "Failed to start hashing threads: " ++ reason

/-- The fingerprint of a video, how much of the video it covers, and the number of decoded
frames, whether they were taken or not. -/
structure HashOutcome where
  fingerprint : Fingerprint
  completion : Completion Float
  decoded : Nat

abbrev HashResult := Attempt VideoError HashOutcome

namespace VideoHashing

/-- How the rows of samples of a frame are transformed. -/
abbrev RowTransform := Vector Float Plane.samples → Vector Float Plane.samples

def cosineTransform : RowTransform := Cosine.row Angles.ofFloat

variable (transformRow : RowTransform)

def hashFrame (f : Frame Float Image) : Except VideoError Feature :=
  match FrameHash.ofPlane transformRow f.image.lumaPlane with
  | .ok h => .ok ⟨f.number, f.time, h.hash, h.quality⟩
  | .error e => .error (.cannotHash f.number e)

def latestTime? (fs : List Feature) : Option Float :=
  fs.foldl (fun latest f =>
    some (latest.elim f.time fun t => if t < f.time then f.time else t)) none

/-- The outcome of a stopped sampler and the features of its frames, in any order. The length
of the video is the one the decoder knew, or else the time of the last feature. -/
def finish (interval : Float) (duration : Option Float) (s : Sampler Float Image)
    (fs : List Feature) :
    HashResult :=
  let duration := (duration.or (latestTime? fs)).getD 0
  match Fingerprint.ofUnordered fs interval duration with
  | .error fault => .error (.unorderedFeatures fault)
  | .ok fingerprint => .ok (.ok ⟨fingerprint, s.completion?.getD .complete, s.decoded⟩)

/-- Hashes the frames of a sampler one after the other, up to the first one that
cannot be hashed. -/
def hashFrames (s : Sampler Float Image) :
    Except VideoError (List Feature) × Sampler Float Image :=
  match _h : s.next with
  | (none, s') => (.ok [], s')
  | (some (.error _), s') => hashFrames s'
  | (some (.ok frame), s') =>
    match hashFrame transformRow frame with
    | .error e => (.error e, s')
    | .ok f =>
      let (fs, final) := hashFrames s'
      (fs.map (f :: ·), final)
termination_by s.remaining
decreasing_by all_goals exact Sampler.remaining_lt_of_next _h

/-- The fingerprint of a decoder's frames, hashed one after the other, and whether the job is
cancelled afterwards. -/
def sequentially (o : CreationOptions) (d : Decoder Float Image) (cancelled : Bool) :
    HashResult × Bool :=
  match hashFrames transformRow (.ofDecoder d o.interval cancelled) with
  | (.error e, s) => (.ok (.error e), s.cancelled)
  | (.ok fs, s) => (finish o.interval d.duration s fs, s.cancelled)

def framesOf (items : List (SamplerItem Float Image)) : List (Frame Float Image) :=
  items.filterMap Except.toOption

/-- The fingerprint of a decoder's frames, hashed by several workers; `arrange` puts the
hashes into the order in which they are completed. The first failure to be completed is the
one that is reported. -/
def concurrently (o : CreationOptions) (d : Decoder Float Image) (cancelled : Bool)
    (arrange : List (Except VideoError Feature) → List (Except VideoError Feature)) :
    HashResult :=
  let (items, s) := (Sampler.ofDecoder d o.interval cancelled).drain
  match (arrange ((framesOf items).map (hashFrame transformRow))).mapM id with
  | .error e => .ok (.error e)
  | .ok fs => finish o.interval d.duration s fs

/-- The fingerprints of several videos, in the order of the sources. Opening a video may fail;
a job cancelled during one video is cancelled for those after it. -/
def hashVideos (o : CreationOptions) (cancelled : Bool) :
    List (Except VideoError (Decoder Float Image)) → List HashResult
  | [] => []
  | .error e :: rest => .ok (.error e) :: hashVideos o cancelled rest
  | .ok d :: rest =>
    let (result, cancelled) := sequentially transformRow o d cancelled
    result :: hashVideos o cancelled rest

end VideoHashing

end VideoFingerprint
