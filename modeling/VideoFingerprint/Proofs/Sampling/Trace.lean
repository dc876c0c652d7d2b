import VideoFingerprint.Sampling.Sampler

/-!
What can be seen of a sampler at work. A caller asks for items and may cancel the job between
two calls; each call asks the decoder any number of times. The trace of a run lists all of this
in order: cancellations by the caller, answers of the decoder, attempts to ask it that found
the job cancelled, and the items returned.
-/

namespace VideoFingerprint

/-- What a caller does with a sampler. -/
inductive SamplerCall
  | next
  | cancel

/-- One thing that is seen of a sampler at work. The sampler looks whether the job is cancelled
before it asks its decoder: if it is, the attempt is refused, else the decoder answers. -/
inductive SamplerEvent (α π : Type)
  | cancelled
  | refused
  | answered (a : DecoderAnswer α π)
  | returned (item : Option (SamplerItem α π))

abbrev SamplerTrace (α π : Type) := List (SamplerEvent α π)

variable {α π : Type}

namespace Sampler

variable [Scalar α]

/-! ### The events of a call -/

def afterFrame (s : Sampler α π) (time : α) (cancels : Bool) (d : Decoder α π) : Sampler α π :=
  { s.advance time with cancelled := cancels, status := .running d }

section AfterFrame

variable (s : Sampler α π) (time : α) (cancels : Bool) (d : Decoder α π)

@[simp] theorem status_afterFrame : (s.afterFrame time cancels d).status = .running d := rfl

@[simp] theorem cancelled_afterFrame : (s.afterFrame time cancels d).cancelled = cancels := rfl

@[simp] theorem decoded_afterFrame : (s.afterFrame time cancels d).decoded = s.decoded + 1 :=
  rfl

@[simp] theorem cadence_afterFrame :
    (s.afterFrame time cancels d).cadence = (s.cadence.offer s.interval time).2 := rfl

@[simp] theorem lastTime_afterFrame : (s.afterFrame time cancels d).lastTime = time := rfl

end AfterFrame

def pullEvents (duration : Option α) (s : Sampler α π) :
    List (DecoderAnswer α π) → SamplerTrace α π
  | [] => if s.cancelled then [.refused] else [.answered ⟨.finished, false⟩]
  | a :: rest =>
    if s.cancelled then [.refused]
    else .answered a :: match a.pull with
      | .finished => []
      | .failed _ => []
      | .frame f =>
        if s.acceptsTime f.time && !(s.cadence.offer s.interval f.time).1 then
          pullEvents duration (s.afterFrame f.time a.cancels ⟨rest, duration⟩) rest
        else []

section Exits

variable (duration : Option α) {s : Sampler α π} {a : DecoderAnswer α π}
  (rest : List (DecoderAnswer α π)) {f : DecodedFrame α π}

/-- A sampler that finds the job cancelled asks no more. -/
theorem pull_refused (answers : List (DecoderAnswer α π)) (hc : s.cancelled = true) :
    s.pullEvents duration answers = [.refused] ∧
    s.pull duration answers = (none, s.stop .cancelled) := by
  cases answers <;> simp [pullEvents, pull, hc]

/-- After its last answer a decoder reports the end of the video. -/
theorem pull_nil (hc : s.cancelled = false) :
    s.pullEvents duration [] = [.answered ⟨.finished, false⟩] ∧
    s.pull duration [] = (none, s.stop .complete) := by
  simp [pullEvents, pull, hc]

theorem pull_finished (hc : s.cancelled = false) (ha : a.pull = .finished) :
    s.pullEvents duration (a :: rest) = [.answered a] ∧
      s.pull duration (a :: rest) =
        (none, { s with cancelled := a.cancels }.stop .complete) := by
  simp [pullEvents, pull, hc, ha]

theorem pull_failed {message : String} (hc : s.cancelled = false)
    (ha : a.pull = .failed message) :
    s.pullEvents duration (a :: rest) = [.answered a] ∧
      s.pull duration (a :: rest) = (some (.error (.decoder message)),
        { s with cancelled := a.cancels }.stop (.incomplete (.decoder message))) := by
  simp [pullEvents, pull, hc, ha]

/-- A frame with a time that is not acceptable ends the run. -/
theorem pull_badTime (hc : s.cancelled = false) (ha : a.pull = .frame f)
    (hf : s.acceptsTime f.time = false) :
    s.pullEvents duration (a :: rest) = [.answered a] ∧
      s.pull duration (a :: rest) = (some (.error (.badTime s.decoded f.time s.lastTime)),
        { s with cancelled := a.cancels }.stop
          (.incomplete (.badTime s.decoded f.time s.lastTime))) := by
  have hf' : { s with cancelled := a.cancels }.acceptsTime f.time = false := hf
  simp [pullEvents, pull, hc, ha, hf, hf']

/-- A frame that the cadence takes is the item of the call. -/
theorem pull_taken (hc : s.cancelled = false) (ha : a.pull = .frame f)
    (hf : s.acceptsTime f.time = true)
    (htaken : (s.cadence.offer s.interval f.time).1 = true) :
    s.pullEvents duration (a :: rest) = [.answered a] ∧
      s.pull duration (a :: rest) = (some (.ok ⟨s.decoded, f.time, f.image⟩),
        s.afterFrame f.time a.cancels ⟨rest, duration⟩) := by
  have hf' : { s with cancelled := a.cancels }.acceptsTime f.time = true := hf
  simp [pullEvents, pull, hc, ha, hf, hf', htaken]
  rfl

/-- After a frame that the cadence passes over, the call goes on. -/
theorem pull_skipped (hc : s.cancelled = false) (ha : a.pull = .frame f)
    (hf : s.acceptsTime f.time = true)
    (hskip : (s.cadence.offer s.interval f.time).1 = false) :
    s.pullEvents duration (a :: rest) =
        .answered a :: (s.afterFrame f.time a.cancels ⟨rest, duration⟩).pullEvents
          duration rest ∧
      s.pull duration (a :: rest) =
        (s.afterFrame f.time a.cancels ⟨rest, duration⟩).pull duration rest := by
  have hf' : { s with cancelled := a.cancels }.acceptsTime f.time = true := hf
  simp [pullEvents, pull, hc, ha, hf, hf', hskip]
  rfl

end Exits

def call (s : Sampler α π) : SamplerCall → Sampler α π
  | .next => s.next.2
  | .cancel => s.cancel

/-- The events of one call. A sampler that has stopped has no decoder to ask. -/
def eventsOf (s : Sampler α π) : SamplerCall → SamplerTrace α π
  | .next =>
    (match s.status with
      | .running d => s.pullEvents d.duration d.answers
      | .stopped _ => []) ++ [.returned s.next.1]
  | .cancel => [.cancelled]

def run (s : Sampler α π) (calls : List SamplerCall) : Sampler α π := calls.foldl call s

def trace (s : Sampler α π) : List SamplerCall → SamplerTrace α π
  | [] => []
  | c :: calls => s.eventsOf c ++ (s.call c).trace calls

def returns (s : Sampler α π) : List SamplerCall → List (Option (SamplerItem α π))
  | [] => []
  | .next :: calls => s.next.1 :: s.next.2.returns calls
  | .cancel :: calls => s.cancel.returns calls

theorem run_append (s : Sampler α π) (calls more : List SamplerCall) :
    s.run (calls ++ more) = (s.run calls).run more :=
  List.foldl_append

theorem trace_append (s : Sampler α π) (calls more : List SamplerCall) :
    s.trace (calls ++ more) = s.trace calls ++ (s.run calls).trace more := by
  induction calls generalizing s with
  | nil => rfl
  | cons c calls ih =>
      rw [List.cons_append, trace, trace, ih, List.append_assoc]
      rfl

end Sampler

/-! ### Reading a trace -/

namespace SamplerEvent

@[simp] def asks : SamplerEvent α π → Bool
  | .refused => true
  | .answered _ => true
  | _ => false

@[simp] def cancels : SamplerEvent α π → Bool
  | .cancelled => true
  | .answered a => a.cancels
  | _ => false

@[simp] def item? : SamplerEvent α π → Option (Option (SamplerItem α π))
  | .returned item => some item
  | _ => none

@[simp] def answer? : SamplerEvent α π → Option (DecoderAnswer α π)
  | .answered a => some a
  | _ => none

end SamplerEvent

@[simp] def Pull.frame? : Pull α π → Option (DecodedFrame α π)
  | .frame f => some f
  | _ => none

namespace SamplerTrace

def items (t : SamplerTrace α π) : List (Option (SamplerItem α π)) :=
  t.filterMap SamplerEvent.item?

def taken (t : SamplerTrace α π) : List (Frame α π) :=
  t.items.filterMap fun item => item.bind Except.toOption

def answers (t : SamplerTrace α π) : List (DecoderAnswer α π) :=
  t.filterMap SamplerEvent.answer?

def decoded (t : SamplerTrace α π) : List (DecodedFrame α π) :=
  t.answers.filterMap fun a => a.pull.frame?

def cancelled (t : SamplerTrace α π) (before : Bool) : Bool :=
  before || t.any SamplerEvent.cancels

def cancelledWhenAsking : SamplerTrace α π → (before : Bool) → List Bool
  | [], _ => []
  | e :: t, before =>
      (if e.asks then [before] else []) ++ cancelledWhenAsking t (before || e.cancels)

variable (t u : SamplerTrace α π)

@[simp] theorem items_nil : items ([] : SamplerTrace α π) = [] := rfl

@[simp] theorem answers_nil : answers ([] : SamplerTrace α π) = [] := rfl

@[simp] theorem taken_nil : taken ([] : SamplerTrace α π) = [] := rfl

@[simp] theorem decoded_nil : decoded ([] : SamplerTrace α π) = [] := rfl

@[simp] theorem cancelled_nil (before : Bool) :
    cancelled ([] : SamplerTrace α π) before = before :=
  Bool.or_false before

@[simp] theorem cancelledWhenAsking_nil (before : Bool) :
    cancelledWhenAsking ([] : SamplerTrace α π) before = [] := rfl

@[simp] theorem cancelledWhenAsking_cons (e : SamplerEvent α π) (before : Bool) :
    cancelledWhenAsking (e :: t) before =
      (if e.asks then [before] else []) ++ cancelledWhenAsking t (before || e.cancels) := rfl

@[simp] theorem items_append : items (t ++ u) = t.items ++ u.items := List.filterMap_append

@[simp] theorem answers_append : answers (t ++ u) = t.answers ++ u.answers :=
  List.filterMap_append

@[simp] theorem taken_append : taken (t ++ u) = t.taken ++ u.taken := by
  rw [taken, items_append, List.filterMap_append]
  rfl

@[simp] theorem decoded_append : decoded (t ++ u) = t.decoded ++ u.decoded := by
  rw [decoded, answers_append, List.filterMap_append]
  rfl

@[simp] theorem cancelled_append (before : Bool) :
    cancelled (t ++ u) before = u.cancelled (t.cancelled before) := by
  rw [cancelled, List.any_append, ← Bool.or_assoc]
  rfl

@[simp] theorem items_cons (e : SamplerEvent α π) :
    items (e :: t) = e.item?.toList ++ t.items := by
  cases e <;> rfl

@[simp] theorem answers_cons (e : SamplerEvent α π) :
    answers (e :: t) = e.answer?.toList ++ t.answers := by
  cases e <;> rfl

@[simp] theorem taken_cons (e : SamplerEvent α π) :
    taken (e :: t) = e.item?.toList.filterMap (fun item => item.bind Except.toOption) ++
      t.taken := by
  rw [taken, items_cons, List.filterMap_append]
  rfl

@[simp] theorem decoded_cons (e : SamplerEvent α π) :
    decoded (e :: t) = e.answer?.toList.filterMap (fun a => a.pull.frame?) ++ t.decoded := by
  rw [decoded, answers_cons, List.filterMap_append]
  rfl

@[simp] theorem cancelled_cons (e : SamplerEvent α π) (before : Bool) :
    cancelled (e :: t) before = cancelled t (before || e.cancels) := by
  rw [cancelled, List.any_cons, ← Bool.or_assoc]
  rfl

@[simp] theorem cancelledWhenAsking_append (before : Bool) :
    cancelledWhenAsking (t ++ u) before =
      t.cancelledWhenAsking before ++ u.cancelledWhenAsking (t.cancelled before) := by
  induction t generalizing before with
  | nil => simp
  | cons e t ih =>
      rw [List.cons_append, cancelledWhenAsking_cons, cancelledWhenAsking_cons, ih,
        cancelled_cons, List.append_assoc]

end SamplerTrace

namespace Sampler

variable [Scalar α]

/-- A call returns only once, at its end. -/
theorem items_pullEvents (duration : Option α) (s : Sampler α π)
    (answers : List (DecoderAnswer α π)) :
    (s.pullEvents duration answers).items = [] := by
  induction answers generalizing s with
  | nil => cases hc : s.cancelled <;> simp [pullEvents, hc]
  | cons a rest ih =>
      cases hc : s.cancelled with
      | true => simp [pullEvents, hc]
      | false =>
          cases ha : a.pull with
          | finished => simp [pullEvents, hc, ha]
          | failed message => simp [pullEvents, hc, ha]
          | frame f =>
              cases hf : s.acceptsTime f.time with
              | false => simp [pullEvents, hc, ha, hf]
              | true =>
                  cases hskip : (s.cadence.offer s.interval f.time).1 with
                  | true => simp [pullEvents, hc, ha, hf, hskip]
                  | false => simp [pullEvents, hc, ha, hf, hskip, ih]

/-- The items of a trace are what the calls return. -/
theorem items_trace (s : Sampler α π) (calls : List SamplerCall) :
    (s.trace calls).items = s.returns calls := by
  induction calls generalizing s with
  | nil => rfl
  | cons c calls ih =>
      rw [trace, SamplerTrace.items_append, ih]
      cases c with
      | cancel => rfl
      | next =>
          cases hs : s.status with
          | running d => simp [eventsOf, returns, call, hs, items_pullEvents]
          | stopped completion => simp [eventsOf, returns, call, hs]

end Sampler

end VideoFingerprint
