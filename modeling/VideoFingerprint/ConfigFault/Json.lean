import VideoFingerprint.ConfigFault
import VideoFingerprint.Json.Form

/-!
The JSON form of a refused setting: the name of the setting, with the refused value where the
message shows one.
-/

namespace VideoFingerprint.ConfigFault

open Json

instance : Form ConfigFault where
  read := readVariant [
    ("DistanceThreshold", .holding fun t => distanceThreshold <$> readU32 t),
    ("MinQuality", .holding fun t => minQuality <$> readFloat t),
    ("MinMatchRunLength", .bare minRunLength),
    ("SecondsPerHash", .holding fun t => interval <$> readFloat t),
    ("Threads", .bare threads),
    ("Bands", .holding fun t => bands <$> readU64 t),
    ("MinScore", .holding fun t => minScore <$> readFloat t)]
  value
    | distanceThreshold bits => .variant "DistanceThreshold" (.natural bits)
    | minQuality quality => .variant "MinQuality" (.float quality)
    | minRunLength => .string "MinMatchRunLength"
    | interval seconds => .variant "SecondsPerHash" (.float seconds)
    | threads => .string "Threads"
    | bands count => .variant "Bands" (.natural count)
    | minScore score => .variant "MinScore" (.float score)

end VideoFingerprint.ConfigFault
