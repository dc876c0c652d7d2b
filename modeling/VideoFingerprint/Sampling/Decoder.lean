import VideoFingerprint.Decimal.Shortest
import VideoFingerprint.Number.Scalar

/-!
Decoders as data. A decoder is the list of the answers that it is going to give; after them it
reports the end of the video. An answer may cancel the job, as a caller does who watches the
decoder at work. Times and pictures are parameters: sampling looks only at the times.
-/

namespace VideoFingerprint

variable {α π : Type}

/-- A decoded picture and its time in seconds. -/
structure DecodedFrame (α π : Type) where
  image : π
  time : α

/-- What a decoder says when it is asked for the next frame. -/
inductive Pull (α π : Type)
  | frame (f : DecodedFrame α π)
  | finished
  | failed (message : String)

/-- An answer of a decoder, and whether the job is cancelled once it has been given. -/
structure DecoderAnswer (α π : Type) where
  pull : Pull α π
  cancels : Bool

/-- The answers that a decoder is going to give, and the length of the video in seconds
where it is known. -/
structure Decoder (α π : Type) where
  answers : List (DecoderAnswer α π)
  duration : Option α

/-- Why sampling stopped before the end of a video: the decoder failed, or a frame carried a
time that cannot follow the time of the frame before it. -/
inductive StopReason (α : Type)
  | decoder (message : String)
  | badTime (frame : Nat) (time last : α)

def StopReason.message : StopReason Float → String
  | .decoder message => message
  | .badTime frame time last =>
    "frame " ++ toString frame ++ " has timestamp " ++ plainText time ++ ", after a frame at "
      ++ plainText last

/-- How the frames of a video were consumed: to the end, up to a failure, or up to
a cancellation. -/
inductive Completion (α : Type)
  | complete
  | incomplete (reason : StopReason α)
  | cancelled

namespace Decoder

def ofFrames (frames : List (DecodedFrame α π)) (duration : α) : Decoder α π :=
  ⟨frames.map fun f => ⟨.frame f, false⟩, some duration⟩

/-- A decoder over pictures at a constant rate, from time zero on. -/
def ofImages (images : List π) (rate : Float) : Decoder Float π :=
  ofFrames (images.mapIdx fun i image => ⟨image, Float.ofNat i / rate⟩)
    (Float.ofNat images.length / rate)

/-- The decoder that fails instead of giving answer `index`. -/
def failingAt (d : Decoder α π) (index : Nat) (message : String) : Decoder α π :=
  if index ≤ d.answers.length then
    { d with answers := d.answers.take index ++ [⟨.failed message, false⟩] }
  else d

/-- The answer, which now cancels the job unless it is a failure. -/
def cancelling (a : DecoderAnswer α π) : DecoderAnswer α π :=
  match a.pull with
  | .failed _ => a
  | _ => { a with cancels := true }

/-- The decoder with which the job is cancelled once `count` answers have been given, the end
of the video counting as an answer. -/
def cancellingAfter (d : Decoder α π) (count : Nat) : Decoder α π :=
  let answers := if count = d.answers.length + 1 then d.answers ++ [⟨.finished, false⟩]
    else d.answers
  { d with answers := answers.mapIdx fun i a => if i + 1 = count then cancelling a else a }

end Decoder

end VideoFingerprint
