import VideoFingerprint.ConfigFault
import VideoFingerprint.Hash.Basic
import VideoFingerprint.Quality

/-!
The tolerances of a comparison. A configuration carries the proof that its values are in range.
-/

namespace VideoFingerprint

namespace MatchConfig

def fault? (threshold : Nat) (minQuality : Float) (minRun : Nat) : Option ConfigFault :=
  if Hash.size < threshold then some (.distanceThreshold threshold)
  else if ¬ Quality.inRange minQuality then some (.minQuality minQuality)
  else if minRun = 0 then some .minRunLength
  else none

end MatchConfig

/-- Two frames match when their hashes differ in at most `threshold` bits; frames of a quality
below `minQuality` are left out, and `minRun` matching frames in a row are needed to count. -/
structure MatchConfig where
  threshold : Nat
  minQuality : Float
  minRun : Nat
  valid : MatchConfig.fault? threshold minQuality minRun = none

namespace MatchConfig

def build (threshold : Nat) (minQuality : Float) (minRun : Nat) :
    Except ConfigFault MatchConfig :=
  match h : fault? threshold minQuality minRun with
  | some fault => .error fault
  | none => .ok ⟨threshold, minQuality, minRun, h⟩

/-- The default tolerances: 31 bits, quality 50, runs of any length. -/
def default : MatchConfig := ⟨31, 50, 1, by decide +kernel⟩

/-- Two frames whose hashes differ in `distance` bits match. -/
def within (cfg : MatchConfig) (distance : Nat) : Bool := distance ≤ cfg.threshold

theorem fault?_eq_none_iff {threshold : Nat} {minQuality : Float} {minRun : Nat} :
    fault? threshold minQuality minRun = none ↔
      threshold ≤ Hash.size ∧ Quality.inRange minQuality = true ∧ 1 ≤ minRun := by
  unfold fault?
  split
  · simp; omega
  · split
    · simp_all
    · split
      · simp_all
      · simp_all; omega

end MatchConfig

end VideoFingerprint
