import VideoFingerprint.Number.Binary64

/-!
What is known about a video before it is decoded, and lengths of time in whole nanoseconds.
-/

namespace VideoFingerprint

/-- A length of time: whole seconds, and fewer than a thousand million nanoseconds. -/
structure Duration where
  seconds : Nat
  nanos : Nat
deriving DecidableEq

namespace Duration

def nanosPerSecond : Nat := 1000000000

def zero : Duration := ⟨0, 0⟩

/-- The length of a number of nanoseconds, as long as its seconds fit 64 bits. -/
def ofNanos? (total : Nat) : Option Duration :=
  if total / nanosPerSecond < UInt64.size then
    some ⟨total / nanosPerSecond, total % nanosPerSecond⟩ else none

/-- The length nearest to a number of seconds, a tie to an even number of nanoseconds. What is
not above zero, or no number, counts as zero. -/
def ofSeconds? (x : Float) : Option Duration :=
  if ¬ 0 < x then some zero
  else if x.isInf then none
  else ofNanos? (Binary64.divHalfEven (Binary64.magnitude x * nanosPerSecond) Binary64.unit)

def toSeconds (d : Duration) : Float :=
  Float.ofNat d.seconds + Float.ofNat d.nanos / Float.ofNat nanosPerSecond

end Duration

/-- The properties of a video: its length, the size of its file in bytes, the resolution in
which it is shown, and the frame rate if a usable one is known. -/
structure VideoInfo where
  duration : Duration
  fileSize : Nat
  width : Nat
  height : Nat
  frameRate : Option Float

end VideoFingerprint
