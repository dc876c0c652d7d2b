import VideoFingerprint.Corpus.Config
import VideoFingerprint.Json.Form

/-!
The JSON form of search settings. What is read is not checked, so it may describe no split of a
hash.
-/

namespace VideoFingerprint.IndexConfig

open Json Json.Record

instance : Form IndexConfig where
  read := (IndexConfig.mk <$> field "bands" readU64 <*> field "min_score" Form.read).reader
  value cfg := .object [("bands", .natural cfg.bands), ("min_score", .float cfg.minScore)]

end VideoFingerprint.IndexConfig
