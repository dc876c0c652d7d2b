import VideoFingerprint.Sampling.Cadence
import VideoFingerprint.Sampling.Decoder

/-!
The sampler pulls frames from a decoder and passes on those that the cadence takes. It yields
frames, then at most one reason for stopping early, and then nothing more. Once it has stopped,
the decoder is gone and the completion stays as it is: the two exclude each other in the type.
-/

namespace VideoFingerprint

/-- A frame that was taken, with its place in decode order; frames that were not taken
count as well. -/
structure Frame (α π : Type) where
  number : Nat
  time : α
  image : π

/-- A sampler either has its decoder or knows how it stopped. -/
inductive SamplerStatus (α π : Type)
  | running (decoder : Decoder α π)
  | stopped (completion : Completion α)

/-- The state of a sampler: the number of decoded frames, the place on the grid, the time of
the last decoded frame, and whether the job has been cancelled. -/
structure Sampler (α π : Type) where
  status : SamplerStatus α π
  interval : α
  cancelled : Bool
  decoded : Nat
  cadence : Cadence α
  lastTime : α

abbrev SamplerItem (α π : Type) := Except (StopReason α) (Frame α π)

namespace Sampler

variable {α π : Type} [Scalar α]

def ofDecoder (d : Decoder α π) (seconds : α) (cancelled : Bool) : Sampler α π where
  status := .running d
  interval := Cadence.intervalOf seconds
  cancelled := cancelled
  decoded := 0
  cadence := .start
  lastTime := Scalar.ofNat 0

/-- How the sampler stopped, once it has. -/
def completion? (s : Sampler α π) : Option (Completion α) :=
  match s.status with
  | .running _ => none
  | .stopped c => some c

/-- The length of the video, while the decoder is there and knows it. -/
def duration? (s : Sampler α π) : Option α :=
  match s.status with
  | .running d => d.duration
  | .stopped _ => none

def cancel (s : Sampler α π) : Sampler α π := { s with cancelled := true }

def stop (s : Sampler α π) (c : Completion α) : Sampler α π := { s with status := .stopped c }

/-- A time that can follow the time of the last decoded frame. -/
def acceptsTime (s : Sampler α π) (time : α) : Bool :=
  Scalar.isFinite time && !Scalar.lt time (Scalar.ofNat 0) && !Scalar.lt time s.lastTime

/-- The sampler after decoding a frame with an acceptable time. -/
def advance (s : Sampler α π) (time : α) : Sampler α π :=
  { s with
    decoded := s.decoded + 1
    cadence := (s.cadence.offer s.interval time).2
    lastTime := time }

/-- Pulls answers until there is something to yield. A cancelled job pulls no more. -/
def pull (duration : Option α) (s : Sampler α π) :
    List (DecoderAnswer α π) → Option (SamplerItem α π) × Sampler α π
  | [] => (none, s.stop (if s.cancelled then .cancelled else .complete))
  | a :: rest =>
    if s.cancelled then (none, s.stop .cancelled)
    else
      let s := { s with cancelled := a.cancels }
      match a.pull with
      | .finished => (none, s.stop .complete)
      | .failed message =>
          (some (.error (.decoder message)), s.stop (.incomplete (.decoder message)))
      | .frame f =>
        if s.acceptsTime f.time then
          let next := { s.advance f.time with status := .running ⟨rest, duration⟩ }
          if (s.cadence.offer s.interval f.time).1 then
            (some (.ok ⟨s.decoded, f.time, f.image⟩), next)
          else pull duration next rest
        else
          let reason := .badTime s.decoded f.time s.lastTime
          (some (.error reason), s.stop (.incomplete reason))

/-- The next item, if there is one, and the sampler after it. -/
def next (s : Sampler α π) : Option (SamplerItem α π) × Sampler α π :=
  match s.status with
  | .running d => s.pull d.duration d.answers
  | .stopped _ => (none, s)

/-! ### Running to the end -/

/-- A bound on the number of items that are still to come. -/
def remaining (s : Sampler α π) : Nat :=
  match s.status with
  | .running d => d.answers.length + 1
  | .stopped _ => 0

omit [Scalar α] in
@[simp] theorem remaining_stop (s : Sampler α π) (c : Completion α) :
    (s.stop c).remaining = 0 := rfl

theorem remaining_pull_le (duration : Option α) (s : Sampler α π)
    (answers : List (DecoderAnswer α π)) :
    (s.pull duration answers).2.remaining ≤ answers.length := by
  induction answers generalizing s with
  | nil => simp [pull]
  | cons a rest ih =>
      unfold pull
      dsimp only
      split
      · simp
      · split
        · simp
        · simp
        · split
          · split
            · simp [remaining]
            · exact Nat.le_succ_of_le (ih _)
          · simp

theorem remaining_next_lt (s : Sampler α π) (h : s.status = .running d) :
    s.next.2.remaining < s.remaining := by
  unfold next
  rw [h]
  have := remaining_pull_le d.duration s d.answers
  simp only [remaining, h]
  exact Nat.lt_succ_of_le this

/-- Every item yields to a smaller bound. -/
theorem remaining_lt_of_next {s s' : Sampler α π} {item : SamplerItem α π}
    (h : s.next = (some item, s')) : s'.remaining < s.remaining := by
  cases hs : s.status with
  | running d =>
      have := remaining_next_lt s hs
      rwa [h] at this
  | stopped c => simp [next, hs] at h

/-- All items that are still to come, and the sampler after them. -/
def drain (s : Sampler α π) : List (SamplerItem α π) × Sampler α π :=
  match _h : s.next with
  | (none, s') => ([], s')
  | (some item, s') =>
    let (items, final) := s'.drain
    (item :: items, final)
termination_by s.remaining
decreasing_by exact remaining_lt_of_next _h

end Sampler

end VideoFingerprint
