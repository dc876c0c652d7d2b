import VideoFingerprint.Decimal.Shortest
import VideoFingerprint.Hash.Basic
import VideoFingerprint.Quality

/-!
Fingerprints of videos. A fingerprint lists the hashed frames of a video in decode order: frame
numbers rise strictly, times never fall, and every time and quality lies in its range. The
structure carries the proof of this, so every consumer may rely on it; the first fault of a
list of features says why it is none.
-/

namespace VideoFingerprint

/-- The hash of one sampled frame, with its number in decode order and its time in seconds. -/
structure Feature where
  frame : Nat
  time : Float
  hash : Hash
  quality : Float

/-- Why a list of features is no fingerprint; `index` is the place of the feature to blame. -/
inductive SequenceFault
  | frameOrder (index previous frame : Nat)
  | timeOrder (index : Nat) (previous time : Float)
  | timeRange (index : Nat) (time : Float)
  | qualityRange (index : Nat) (quality : Float)

def SequenceFault.message : SequenceFault → String
  | .frameOrder index previous frame =>
    "feature " ++ toString index ++ ": frame number " ++ toString frame
      ++ " does not follow frame number " ++ toString previous
  | .timeOrder index previous time =>
    "feature " ++ toString index ++ ": timestamp " ++ plainText time
      ++ " is earlier than the previous timestamp " ++ plainText previous
  | .timeRange index time =>
    "feature " ++ toString index ++ ": timestamp " ++ plainText time ++
      " must be finite and non-negative"
  | .qualityRange index quality =>
    "feature " ++ toString index ++ ": quality " ++ plainText quality ++ " is outside 0..=100"

namespace Feature

/-- A number that can be the time of a feature. -/
def timeInRange (time : Float) : Bool := time.isFinite ∧ ¬ time < 0

/-- A quality or time out of range, the quality first. -/
def rangeFault? (f : Feature) (index : Nat) : Option SequenceFault :=
  if ¬ Quality.inRange f.quality then some (.qualityRange index f.quality)
  else if ¬ timeInRange f.time then some (.timeRange index f.time)
  else none

/-- A frame number or time that does not follow the feature before, the frame number first. -/
def orderFault? (f : Feature) (index : Nat) (previous : Feature) : Option SequenceFault :=
  if f.frame ≤ previous.frame then some (.frameOrder index previous.frame f.frame)
  else if f.time < previous.time then some (.timeOrder index previous.time f.time)
  else none

theorem rangeFault?_eq_none_iff {index : Nat} {f : Feature} :
    f.rangeFault? index = none ↔ Quality.inRange f.quality = true ∧
      timeInRange f.time = true := by
  unfold rangeFault?
  split <;> simp_all

theorem orderFault?_eq_none_iff {index : Nat} {previous f : Feature} :
    f.orderFault? index previous = none ↔ previous.frame < f.frame ∧
      ¬ f.time < previous.time := by
  unfold orderFault?
  split
  · simp; omega
  · split <;> simp_all

end Feature

namespace Fingerprint

/-- The first feature out of range, where the list starts at place `index`. -/
def rangeFault? : (index : Nat) → List Feature → Option SequenceFault
  | _, [] => none
  | index, f :: fs => (f.rangeFault? index).or (rangeFault? (index + 1) fs)

/-- The first feature that does not follow the one before; `previous` stands before the list,
which starts at place `index`. -/
def orderFaultAfter? :
    (index : Nat) → (previous : Feature) → List Feature → Option SequenceFault
  | _, _, [] => none
  | index, previous, f :: fs =>
      (f.orderFault? index previous).or (orderFaultAfter? (index + 1) f fs)

/-- The first feature that does not follow the one before. -/
def orderFault? : List Feature → Option SequenceFault
  | [] => none
  | f :: fs => orderFaultAfter? 1 f fs

/-- The first fault of a list of features: ranges are looked at before the order. -/
def firstFault? (fs : List Feature) : Option SequenceFault :=
  (rangeFault? 0 fs).or (orderFault? fs)

end Fingerprint

/-- The fingerprint of a video, with the sampling interval and the length of the
video in seconds. -/
structure Fingerprint where
  features : List Feature
  interval : Float
  duration : Float
  valid : Fingerprint.firstFault? features = none

namespace Fingerprint

def ofFeatures (fs : List Feature) (interval duration : Float) :
    Except SequenceFault Fingerprint :=
  match h : firstFault? fs with
  | some fault => .error fault
  | none => .ok ⟨fs, interval, duration, h⟩

/-- The fingerprint of features in any order; they are put in the order of their
frame numbers. -/
def ofUnordered (fs : List Feature) (interval duration : Float) :
    Except SequenceFault Fingerprint :=
  ofFeatures (fs.mergeSort fun a b => a.frame ≤ b.frame) interval duration

/-- The fingerprint with one hash for each second, all of one quality. -/
def ofHashes (hashes : List Hash) (quality : Float) : Except SequenceFault Fingerprint :=
  ofFeatures (hashes.mapIdx fun i hash => ⟨i, Float.ofNat i, hash, quality⟩) 1
    (Float.ofNat hashes.length)

def size (p : Fingerprint) : Nat := p.features.length

def eligible (p : Fingerprint) (minQuality : Float) : List Feature :=
  p.features.filter fun f => minQuality ≤ f.quality

theorem ofFeatures_eq_ok_iff {fs : List Feature} {interval duration : Float}
    {p : Fingerprint} :
    ofFeatures fs interval duration = .ok p ↔
      p.features = fs ∧ p.interval = interval ∧ p.duration = duration := by
  unfold ofFeatures
  split
  · rename_i fault h
    constructor
    · intro hp; cases hp
    · rintro ⟨rfl, _, _⟩
      rw [p.valid] at h
      cases h
  · constructor
    · intro hp
      cases hp
      exact ⟨rfl, rfl, rfl⟩
    · rintro ⟨rfl, rfl, rfl⟩
      rfl

theorem ofFeatures_eq_error_iff {fs : List Feature} {interval duration : Float}
    {fault : SequenceFault} :
    ofFeatures fs interval duration = .error fault ↔ firstFault? fs = some fault := by
  unfold ofFeatures
  split <;> simp_all

theorem rangeFault?_eq_none_iff {index : Nat} {fs : List Feature} :
    rangeFault? index fs = none ↔
      ∀ f ∈ fs, Quality.inRange f.quality = true ∧ Feature.timeInRange f.time = true := by
  induction fs generalizing index with
  | nil => simp [rangeFault?]
  | cons f fs ih =>
      simp [rangeFault?, Option.or_eq_none_iff, Feature.rangeFault?_eq_none_iff, ih]

end Fingerprint

end VideoFingerprint
