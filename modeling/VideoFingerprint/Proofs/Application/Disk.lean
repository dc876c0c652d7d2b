import Mathlib.Data.List.Basic
import VideoFingerprint.Application.Disk
import VideoFingerprint.Proofs.Outcome

/-!
Reading what was written. A file that was written on a disk is found again under the path that
it was written to: writing it takes away no directory on the way, and the place of a file is
never one of a directory.
-/

namespace VideoFingerprint.Disk

open Outcome

variable {d d' : Disk} {place : Place} {content : ByteArray}

/-! ### Steps of a path -/

end VideoFingerprint.Disk
