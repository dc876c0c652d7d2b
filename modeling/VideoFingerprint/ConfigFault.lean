import VideoFingerprint.Decimal.Shortest

/-!
Settings outside their range, for matching, searching and hashing alike.
-/

namespace VideoFingerprint

/-- Why a setting is refused. -/
inductive ConfigFault
  | distanceThreshold (bits : Nat)
  | minQuality (quality : Float)
  | minRunLength
  | interval (seconds : Float)
  | threads
  | bands (count : Nat)
  | minScore (score : Float)

def ConfigFault.message : ConfigFault → String
  | .distanceThreshold bits =>
    "distance threshold " ++ toString bits ++ " is larger than the hash size (256 bits)"
  | .minQuality quality => "minimum quality " ++ plainText quality ++ " is outside 0..=100"
  | .minRunLength => "minimum match run length must be at least 1"
  | .interval seconds =>
      "seconds per hash " ++ plainText seconds ++ " must be finite and non-negative"
  | .threads => "thread count must be at least 1"
  | .bands count => "cannot split a 256 bit hash into " ++ toString count ++ " equal bands"
  | .minScore score => "minimum score " ++ plainText score ++ " is outside 0..=1"

end VideoFingerprint
