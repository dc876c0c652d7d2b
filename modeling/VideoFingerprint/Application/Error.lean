import VideoFingerprint.FilePath
import VideoFingerprint.Fingerprint.Format
import VideoFingerprint.Matching.Align
import VideoFingerprint.Video.Hashing

/-!
Why a run of the application fails, with the chain of causes that a verbose run shows.
-/

namespace VideoFingerprint

inductive ApplicationError
  | createHash (error : VideoError)
  | incomplete (path : FilePath) (reason : StopReason Float)
  | cancelled (path : FilePath)
  | readFingerprint (path : FilePath) (error : Fingerprint.FileError)
  | writeFingerprint (path : FilePath) (error : Fingerprint.FileError)
  | output (reason : String)
  | lengths (error : LengthMismatch)
  | noCorpus (path : FilePath)

namespace ApplicationError

def message : ApplicationError → String
  | createHash error => "Hash Creation Error: " ++ error.message
  | incomplete path reason =>
    "Decoding of " ++ path.display ++ " stopped early (" ++ reason.message
      ++ "). Use --allow-partial to accept a partial fingerprint"
  | cancelled path => "Hashing of " ++ path.display ++ " was cancelled"
  | readFingerprint path error =>
    "Failed to read fingerprint file " ++ path.display ++ ": " ++ error.message
  | writeFingerprint path error =>
    "Failed to write fingerprint file " ++ path.display ++ ": " ++ error.message
  | output reason => "Failed to write output: " ++ reason
  | lengths error => error.message
  | noCorpus path => "corpus directory not found: " ++ path.display

def fileCauses (e : Fingerprint.FileError) : List String :=
  match e with
  | .io reason => [e.message, reason]
  | .format error => [e.message, error.message]

/-- What led to an error, each cause before its own cause. -/
def causes : ApplicationError → List String
  | createHash error => [error.message]
  | readFingerprint _ error | writeFingerprint _ error => fileCauses error
  | output reason => [reason]
  | incomplete .. | cancelled _ | lengths _ | noCorpus _ => []

end ApplicationError

end VideoFingerprint
