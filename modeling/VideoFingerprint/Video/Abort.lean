import VideoFingerprint.Fingerprint.Basic

/-!
Giving up. A few conditions end the whole program instead of giving an error that a caller
could handle. They stand apart from the errors, so that it can be said when they do not arise.
-/

namespace VideoFingerprint

/-- The conditions under which the program gives up without an answer: hashed frames do not
make a fingerprint, a length of time or the end of a time limit cannot be held, the bytes of a
frame cannot be counted with 64 bits, or search settings split no hash. -/
inductive Abort
  | unorderedFeatures (fault : SequenceFault)
  | durationTooLong
  | timeoutTooLong
  | frameTooLarge
  | unusableIndex

/-- What a step leads to that may fail, and that may also be given up. -/
abbrev Attempt (ε α : Type) := Except Abort (Except ε α)

end VideoFingerprint
