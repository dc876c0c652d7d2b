import VideoFingerprint.Proofs.Sampling.Frames
import VideoFingerprint.Proofs.Sampling.Trace

/-!
The rounds of a sampler. As long as it has not stopped, every answer was a frame with an
acceptable time, the job was never found cancelled, and every item is a frame that was taken. A
run ends in one of four ways, each with its own completion; after that a sampler is silent.
Each answer of the decoder keeps this, and so does every run.
-/

namespace VideoFingerprint

variable {π : Type}

namespace Sampler

open SamplerTrace

theorem acceptsTime_eq (s : Sampler Float π) (time : Float) :
    s.acceptsTime time = timeFollows s.lastTime time := by
  simp only [acceptsTime, timeFollows, Feature.timeInRange, Bool.decide_and, Bool.decide_coe,
    decide_not]
  rfl

/-! ### Before the end -/

/-- What holds between a sampler that has not stopped and its decoder, after the events of a
trace; the job may have been cancelled before the first of them. -/
structure Decoding (d : Decoder Float π) (before : Bool) (t : SamplerTrace Float π)
    (s : Sampler Float π) :
    Prop where
  status : ∃ rest, s.status = .running ⟨rest, d.duration⟩ ∧ d.answers = t.answers ++ rest
  cancelled_eq : s.cancelled = t.cancelled before
  asked : ∀ found ∈ t.cancelledWhenAsking before, found = false
  answers_eq : t.answers.map DecoderAnswer.pull = t.decoded.map Pull.frame
  seen : FramesSeen t.decoded s.decoded s.lastTime s.cadence.origin

/-- What holds of a sampler that has not stopped: every item is a frame that was taken. -/
structure Going (d : Decoder Float π) (before : Bool) (t : SamplerTrace Float π)
    (s : Sampler Float π) : Prop
    extends Decoding d before t s where
  items_eq : t.items = t.taken.map fun f => some (.ok f)
  chosen : Chosen t.decoded t.taken

variable {d : Decoder Float π} {before : Bool} {t : SamplerTrace Float π} {s : Sampler Float π}

theorem going_ofDecoder (d : Decoder Float π) (seconds : Float) (before : Bool) :
    Going d before [] (ofDecoder d seconds before) where
  status := ⟨d.answers, rfl, rfl⟩
  cancelled_eq := (Bool.or_false before).symm
  asked found h := by cases h
  answers_eq := rfl
  seen := framesSeen_nil
  items_eq := rfl
  chosen := ⟨List.Sublist.slnil, rfl⟩

theorem Going.cancel (h : Going d before t s) :
    Going d before (t ++ [.cancelled]) s.cancel where
  status := by simpa [Sampler.cancel] using h.status
  cancelled_eq := by simp [Sampler.cancel]
  asked := by simpa using h.asked
  answers_eq := by simpa using h.answers_eq
  seen := by simpa [Sampler.cancel] using h.seen
  items_eq := by simpa using h.items_eq
  chosen := by simpa using h.chosen

/-- The answers of the decoder are those it has given and those it is going to give. -/
theorem Decoding.answers_append (h : Decoding d before t s)
    {answers : List (DecoderAnswer Float π)} (hs : s.status = .running ⟨answers, d.duration⟩) :
    d.answers = t.answers ++ answers := by
  obtain ⟨rest, hrest, hd⟩ := h.status
  rw [hs] at hrest
  cases hrest
  exact hd

theorem Decoding.returned (h : Decoding d before t s) (item : Option (SamplerItem Float π)) :
    Decoding d before (t ++ [.returned item]) s where
  status := by simpa using h.status
  cancelled_eq := by simpa using h.cancelled_eq
  asked := by simpa using h.asked
  answers_eq := by simpa using h.answers_eq
  seen := by simpa using h.seen

section Frame

variable {a : DecoderAnswer Float π} {rest : List (DecoderAnswer Float π)}
  {f : DecodedFrame Float π}

/-- The decoder has given an acceptable frame. -/
theorem Decoding.answered (h : Decoding d before t s)
    (hs : s.status = .running ⟨a :: rest, d.duration⟩) (hc : s.cancelled = false)
    (ha : a.pull = .frame f) (hf : s.acceptsTime f.time = true) :
    Decoding d before (t ++ [.answered a])
      (s.afterFrame f.time a.cancels ⟨rest, d.duration⟩) where
  status := ⟨rest, rfl, by simpa using h.answers_append hs⟩
  cancelled_eq := by simp [← h.cancelled_eq, hc]
  asked := by simpa [← h.cancelled_eq, hc] using h.asked
  answers_eq := by simpa [ha] using h.answers_eq
  seen := by
    rw [acceptsTime_eq] at hf
    simpa [ha] using h.seen.append hf
      (Cadence.origin_offer_ne_none s.interval s.cadence f.time)

/-- An acceptable frame that the cadence passes over. -/
theorem Going.skip (h : Going d before t s) (hs : s.status = .running ⟨a :: rest, d.duration⟩)
    (hc : s.cancelled = false) (ha : a.pull = .frame f) (hf : s.acceptsTime f.time = true)
    (hskip : (s.cadence.offer s.interval f.time).1 = false) :
    Going d before (t ++ [.answered a])
      (s.afterFrame f.time a.cancels ⟨rest, d.duration⟩) where
  toDecoding := h.toDecoding.answered hs hc ha hf
  items_eq := by simpa using h.items_eq
  chosen := by
    have hne : t.decoded ≠ [] := fun heq =>
      Cadence.origin_ne_none_of_not_taken hskip (h.seen.origin_iff.2 heq)
    simpa [ha] using h.chosen.skip hne f

/-- An acceptable frame that is taken. -/
theorem Going.take (h : Going d before t s) (hs : s.status = .running ⟨a :: rest, d.duration⟩)
    (hc : s.cancelled = false) (ha : a.pull = .frame f) (hf : s.acceptsTime f.time = true) :
    Going d before (t ++ [.answered a, .returned (some (.ok ⟨s.decoded, f.time, f.image⟩))])
      (s.afterFrame f.time a.cancels ⟨rest, d.duration⟩) where
  toDecoding := by
    simpa using (h.toDecoding.answered hs hc ha hf).returned
      (some (.ok ⟨s.decoded, f.time, f.image⟩))
  items_eq := by simpa [Except.toOption] using h.items_eq
  chosen := by simpa [ha, h.seen.count_eq, Except.toOption] using h.chosen.take f

end Frame

/-! ### The end -/

/-- How a run ends after the events `t`: the last events, and the completion
that they lead to. -/
inductive Ending (before : Bool) (t : SamplerTrace Float π) :
    SamplerTrace Float π → Completion Float → Prop
  | refused (h : t.cancelled before = true) :
  Ending before t [.refused, .returned none] .cancelled
  | finished (h : t.cancelled before = false) (a : DecoderAnswer Float π)
    (ha : a.pull = .finished) :
      Ending before t [.answered a, .returned none] .complete
  | failed (h : t.cancelled before = false) (a : DecoderAnswer Float π) (message : String)
      (ha : a.pull = .failed message) :
      Ending before t [.answered a, .returned (some (.error (.decoder message)))]
        (.incomplete (.decoder message))
  | badTime (h : t.cancelled before = false) (a : DecoderAnswer Float π)
    (f : DecodedFrame Float π)
      (ha : a.pull = .frame f) (hf : timeFollows (timeOfLast 0 t.decoded) f.time = false)
      (reason : StopReason Float)
        (hreason : reason = .badTime t.decoded.length f.time (timeOfLast 0 t.decoded)) :
      Ending before t [.answered a, .returned (some (.error reason))] (.incomplete reason)

def silent (e : SamplerEvent Float π) : Prop := e = .cancelled ∨ e = .returned none

/-- What holds of a sampler that has stopped: its run went on for a while, ended, and has been
silent since. The decoder gave its answers in order, at last that there are no more. -/
def Ended (d : Decoder Float π) (before : Bool) (t : SamplerTrace Float π)
    (s : Sampler Float π) : Prop :=
  ∃ (start last rest : SamplerTrace Float π) (s' : Sampler Float π) (c : Completion Float),
    t = start ++ last ++ rest ∧ Going d before start s' ∧ Ending before start last c ∧
    start.answers ++ last.answers <+: d.answers ++ [⟨.finished, false⟩] ∧
    (∀ e ∈ rest, silent e) ∧ s.status = .stopped c ∧ s.decoded = s'.decoded

theorem Ended.stopped (h : Ended d before t s) : ∃ c, s.status = .stopped c := by
  obtain ⟨-, -, -, -, c, -, -, -, -, -, hs, -⟩ := h
  exact ⟨c, hs⟩

theorem Ended.silent (h : Ended d before t s) {s' : Sampler Float π}
    (hstatus : s'.status = s.status) (hdecoded : s'.decoded = s.decoded)
    {e : SamplerEvent Float π} (he : silent e) :
    Ended d before (t ++ [e]) s' := by
  obtain ⟨start, last, rest, s₀, c, rfl, hgoing, hending, hanswers, hrest, hs, hcount⟩ := h
  refine ⟨start, last, rest ++ [e], s₀, c, List.append_assoc _ _ _, hgoing, hending,
    hanswers, ?_, hstatus.trans hs, hdecoded.trans hcount⟩
  intro e' he'
  rcases List.mem_append.1 he' with he' | he'
  · exact hrest e' he'
  · rwa [List.mem_singleton.1 he']

/-- A run that is going on ends when the last events happen. -/
theorem Going.ended (h : Going d before t s) {answers : List (DecoderAnswer Float π)}
    (hs : s.status = .running ⟨answers, d.duration⟩) {last : SamplerTrace Float π}
    {c : Completion Float} (hending : Ending before t last c)
    (hanswers : last.answers <+: answers ++ [⟨.finished, false⟩]) {s' : Sampler Float π}
    (hs' : s'.status = .stopped c) (hdecoded : s'.decoded = s.decoded) :
    Ended d before (t ++ last) s' := by
  refine ⟨t, last, [], s, c, (List.append_nil _).symm, h, hending, ?_, by simp, hs', hdecoded⟩
  rw [h.answers_append hs, List.append_assoc]
  exact (List.prefix_append_right_inj _).2 hanswers

def Holds (d : Decoder Float π) (before : Bool) (t : SamplerTrace Float π)
    (s : Sampler Float π) : Prop :=
  Going d before t s ∨ Ended d before t s

theorem Going.refuse (h : Going d before t s) {answers : List (DecoderAnswer Float π)}
    (hs : s.status = .running ⟨answers, d.duration⟩) (hc : s.cancelled = true) :
    Holds d before
      (t ++ (s.pullEvents d.duration answers ++ [.returned (s.pull d.duration answers).1]))
      (s.pull d.duration answers).2 := by
  obtain ⟨hevents, hpull⟩ := pull_refused d.duration answers hc
  rw [hevents, hpull]
  exact Or.inr (h.ended hs (.refused (h.cancelled_eq.symm.trans hc)) List.nil_prefix rfl rfl)

/-- One call keeps the protocol, whatever the decoder answers. -/
theorem Going.pull (h : Going d before t s) {answers : List (DecoderAnswer Float π)}
    (hs : s.status = .running ⟨answers, d.duration⟩) :
    Holds d before
      (t ++ (s.pullEvents d.duration answers ++ [.returned (s.pull d.duration answers).1]))
      (s.pull d.duration answers).2 := by
  induction answers generalizing t s with
  | nil =>
      cases hc : s.cancelled with
      | true => exact h.refuse hs hc
      | false =>
          obtain ⟨hevents, hpull⟩ := pull_nil d.duration hc
          rw [hevents, hpull]
          exact Or.inr (h.ended hs (.finished (h.cancelled_eq.symm.trans hc) _ rfl)
            (List.prefix_refl _) rfl rfl)
  | cons a rest ih =>
      cases hc : s.cancelled with
      | true => exact h.refuse hs hc
      | false =>
          have hfree : t.cancelled before = false := h.cancelled_eq.symm.trans hc
          have hnext : [a] <+: a :: rest ++ [⟨.finished, false⟩] := List.prefix_append [a] _
          cases ha : a.pull with
          | finished =>
              obtain ⟨hevents, hpull⟩ := pull_finished d.duration rest hc ha
              rw [hevents, hpull]
              exact Or.inr (h.ended hs (.finished hfree a ha) hnext rfl rfl)
          | failed message =>
              obtain ⟨hevents, hpull⟩ := pull_failed d.duration rest hc ha
              rw [hevents, hpull]
              exact Or.inr (h.ended hs (.failed hfree a message ha) hnext rfl rfl)
          | frame f =>
              cases hf : s.acceptsTime f.time with
              | false =>
                  obtain ⟨hevents, hpull⟩ := pull_badTime d.duration rest hc ha hf
                  rw [hevents, hpull]
                  rw [acceptsTime_eq, h.seen.last_eq] at hf
                  refine Or.inr (h.ended hs (.badTime hfree a f ha hf _ ?_) hnext rfl rfl)
                  rw [h.seen.count_eq, h.seen.last_eq]
              | true =>
                  cases htaken : (s.cadence.offer s.interval f.time).1 with
                  | true =>
                      obtain ⟨hevents, hpull⟩ := pull_taken d.duration rest hc ha hf htaken
                      rw [hevents, hpull]
                      exact Or.inl (h.take hs hc ha hf)
                  | false =>
                      obtain ⟨hevents, hpull⟩ := pull_skipped d.duration rest hc ha hf htaken
                      rw [hevents, hpull]
                      simpa using ih (h.skip hs hc ha hf htaken) rfl

theorem Holds.call (h : Holds d before t s) (c : SamplerCall) :
    Holds d before (t ++ s.eventsOf c) (s.call c) := by
  rcases h with hgoing | hended
  · cases c with
    | cancel => exact Or.inl hgoing.cancel
    | next =>
        obtain ⟨rest, hs, -⟩ := hgoing.status
        have hnext := hgoing.pull hs
        simpa only [eventsOf, Sampler.call, next, hs] using hnext
  · cases c with
    | cancel => exact Or.inr (hended.silent rfl rfl (Or.inl rfl))
    | next =>
        obtain ⟨c, hs⟩ := hended.stopped
        have hnext : Ended d before (t ++ [.returned none]) s :=
          hended.silent rfl rfl (Or.inr rfl)
        simp only [eventsOf, Sampler.call, next, hs, List.nil_append]
        exact Or.inr hnext

/-- Every run keeps the protocol. -/
theorem Holds.run (h : Holds d before t s) (calls : List SamplerCall) :
    Holds d before (t ++ s.trace calls) (s.run calls) := by
  induction calls generalizing t s with
  | nil => simpa [trace, Sampler.run] using h
  | cons c calls ih =>
      rw [trace, ← List.append_assoc]
      exact ih (h.call c)

theorem holds_ofDecoder (d : Decoder Float π) (seconds : Float) (before : Bool)
    (calls : List SamplerCall) :
    Holds d before ((ofDecoder d seconds before).trace calls)
      ((ofDecoder d seconds before).run calls) :=
  Holds.run (Or.inl (going_ofDecoder d seconds before)) calls

end Sampler

end VideoFingerprint
