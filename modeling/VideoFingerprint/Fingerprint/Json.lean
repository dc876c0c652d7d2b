import VideoFingerprint.Fingerprint.Basic
import VideoFingerprint.Hash.Hex
import VideoFingerprint.Json.Form

/-!
The JSON forms of hashes, features and fingerprints. A hash is the string of its digits. What
is read as a fingerprint passes the same checks as one that is built from features.
-/

namespace VideoFingerprint

open Json Json.Record

instance : Form Hash where
  read := checked readText fun text => (Hash.parse text).mapError HashParseError.message
  value h := .string h.toHex

def Feature.record : Record Feature :=
  Feature.mk <$> field "frame_number" readU64 <*> field "timestamp" Form.read <*>
    field "hash" Form.read
    <*> field "quality" Form.read

instance : Form Feature where
  read := Feature.record.reader
  value f := .object [("frame_number", .natural f.frame), ("timestamp", Form.value f.time),
    ("hash", Form.value f.hash), ("quality", Form.value f.quality)]

namespace Fingerprint

def record : Record (List Feature × Float × Float) :=
  (fun features interval duration => (features, interval, duration)) <$>
    field "features" Form.read
    <*> field "seconds_per_hash" Form.read <*> field "duration" Form.read

instance : Form Fingerprint where
  read := checked record.reader fun (features, interval, duration) =>
    (ofFeatures features interval duration).mapError SequenceFault.message
  value p :=
    .object [("features", Form.value p.features), ("seconds_per_hash", Form.value p.interval),
      ("duration", Form.value p.duration)]

end Fingerprint

namespace SequenceFault

instance : Form SequenceFault where
  read := readVariant [
    ("FrameOrder", .holding
      (frameOrder <$> field "index" readU64 <*> field "previous" readU64
        <*> field "frame_number" readU64).reader),
    ("TimestampOrder", .holding
      (timeOrder <$> field "index" readU64 <*> field "previous" Form.read
        <*> field "timestamp" Form.read).reader),
    ("Timestamp", .holding
      (timeRange <$> field "index" readU64 <*> field "timestamp" Form.read).reader),
    ("Quality", .holding
      (qualityRange <$> field "index" readU64 <*> field "quality" Form.read).reader)]
  value
    | frameOrder index previous frame =>
        .variant "FrameOrder" (.object [("index", .natural index),
          ("previous", .natural previous), ("frame_number", .natural frame)])
    | timeOrder index previous time =>
        .variant "TimestampOrder" (.object [("index", .natural index),
          ("previous", Form.value previous), ("timestamp", Form.value time)])
    | timeRange index time => .variant "Timestamp" (.object [("index", .natural index),
        ("timestamp", Form.value time)])
    | qualityRange index quality => .variant "Quality" (.object [("index", .natural index),
        ("quality", Form.value quality)])

end SequenceFault

end VideoFingerprint
