import VideoFingerprint.ConfigFault

/-!
How videos are processed when they are fingerprinted.
-/

namespace VideoFingerprint

/-- One frame is hashed every `interval` seconds, each one for an interval of zero. Frames are
scaled down so that no side is longer than `maxDimension`, and decoding may be limited to
`timeout` seconds. -/
structure CreationOptions where
  interval : Float
  threads : Nat
  concurrentVideos : Nat
  maxDimension : Option Nat
  timeout : Option Nat

namespace CreationOptions

def fault? (o : CreationOptions) : Option ConfigFault :=
  if ¬ o.interval.isFinite ∨ o.interval < 0 then some (.interval o.interval)
  else if o.threads = 0 ∨ o.concurrentVideos = 0 then some .threads
  else none

end CreationOptions

end VideoFingerprint
