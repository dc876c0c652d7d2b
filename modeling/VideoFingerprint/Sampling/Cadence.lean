import VideoFingerprint.Number.Scalar

/-!
The cadence of sampling. The first frame is always taken. After it, sample times lie on a fixed
grid that starts at the first frame, so the cadence does not drift when frames come late; a
frame is taken when its time reaches the next sample time. Times a little short of it count as
reaching it, so that rounding in a decoder skips no sample.
-/

namespace VideoFingerprint

/-- The time of the first frame, once there is one, and the next sample time. -/
structure Cadence (α : Type) where
  origin : Option α
  due : α

namespace Cadence

variable {α : Type} [Scalar α]

open Scalar

/-- How far a time may fall short of a sample time: a millionth of a second. -/
def tolerance : α := ofNat 1 / ofNat 1000000

def start : Cadence α := ⟨none, ofNat 0⟩

/-- An interval that is not below zero; anything else becomes zero. -/
def intervalOf (seconds : α) : α := if lt (ofNat 0) seconds then seconds else ofNat 0

/-- The number of whole intervals from the first frame to a time. -/
def cell (interval origin time : α) : α := floor ((time - origin + tolerance) / interval)

/-- Decides whether the frame at a time is taken, and sets the next sample time to the first
grid point after a frame that is. An interval of zero takes every frame. -/
def offer (interval : α) (c : Cadence α) (time : α) : Bool × Cadence α :=
  match c.origin with
  | none => (true, ⟨some time, time + interval⟩)
  | some origin =>
    if le interval (ofNat 0) then (true, c)
    else if lt (time + tolerance) c.due then (false, c)
    else (true, ⟨some origin, origin + (cell interval origin time + ofNat 1) * interval⟩)

theorem offer_of_not_taken {interval : α} {c : Cadence α} {time : α}
    (h : (offer interval c time).1 = false) : (offer interval c time).2 = c := by
  unfold offer at h ⊢
  split at h
  · cases h
  · split at h
    · cases h
    · split at h
      · simp_all
      · cases h

end Cadence

end VideoFingerprint
