import VideoFingerprint.Proofs.Sampling.Drain

/-!
Stretches of frames. Where a decoder begins with frames that a sampler accepts, running to the
end takes some of these frames and goes on from the last of them. What is taken depends on the
frames alone, not on the answers after them, so two decoders that begin alike are sampled alike
that far.
-/

namespace VideoFingerprint

variable {α π : Type}

def DecodedFrame.answer (f : DecodedFrame α π) : DecoderAnswer α π := ⟨.frame f, false⟩

namespace Sampler

variable [Scalar α] {s s' : Sampler α π}

/-! ### One answer -/

def pulling (s : Sampler α π) (d : Decoder α π) : Sampler α π :=
  { s with status := .running d }

theorem next_pulling (s : Sampler α π) (answers : List (DecoderAnswer α π))
    (duration : Option α) :
    (s.pulling ⟨answers, duration⟩).next =
      (s.pulling ⟨answers, duration⟩).pull duration answers := rfl

theorem drain_congr (h : s.next = s'.next) : s.drain = s'.drain := by
  cases hnext : s'.next with
  | mk item final =>
      cases item with
      | none => rw [drain_of_next_none hnext, drain_of_next_none (h.trans hnext)]
      | some item => rw [drain_of_next_some hnext, drain_of_next_some (h.trans hnext)]

theorem drain_stop (s : Sampler α π) (c : Completion α) : (s.stop c).drain = ([], s.stop c) :=
  drain_of_next_none rfl

theorem drain_pulling_cancelled (hc : s.cancelled = true) (d : Decoder α π) :
    (s.pulling d).drain = ([], s.stop .cancelled) :=
  drain_of_next_none ((next_pulling s d.answers d.duration).trans
    (pull_refused (s := s.pulling d) _ _ hc).2)

theorem drain_pulling_nil (hc : s.cancelled = false) (duration : Option α) :
    (s.pulling ⟨[], duration⟩).drain = ([], s.stop .complete) :=
  drain_of_next_none ((next_pulling s [] duration).trans
    (pull_nil (s := s.pulling ⟨[], duration⟩) duration hc).2)

section Answer

variable {a : DecoderAnswer α π} {f : DecodedFrame α π}

theorem drain_pulling_finished (hc : s.cancelled = false) (ha : a.pull = .finished)
    (rest : List (DecoderAnswer α π)) (duration : Option α) :
    (s.pulling ⟨a :: rest, duration⟩).drain =
      ([], { s with cancelled := a.cancels }.stop .complete) := by
  have hpull := (pull_finished (s := s.pulling ⟨a :: rest, duration⟩) duration rest hc ha).2
  exact drain_of_next_none ((next_pulling s _ duration).trans hpull)

theorem drain_pulling_failed (hc : s.cancelled = false) {message : String}
    (ha : a.pull = .failed message) (rest : List (DecoderAnswer α π)) (duration : Option α) :
    (s.pulling ⟨a :: rest, duration⟩).drain = ([.error (.decoder message)],
      { s with cancelled := a.cancels }.stop (.incomplete (.decoder message))) := by
  have hpull := (pull_failed (s := s.pulling ⟨a :: rest, duration⟩) duration rest hc ha).2
  rw [drain_of_next_some ((next_pulling s _ duration).trans hpull), drain_stop]
  rfl

theorem drain_pulling_badTime (hc : s.cancelled = false) (ha : a.pull = .frame f)
    (hf : s.acceptsTime f.time = false) (rest : List (DecoderAnswer α π))
    (duration : Option α) :
    (s.pulling ⟨a :: rest, duration⟩).drain = ([.error (.badTime s.decoded f.time s.lastTime)],
      { s with cancelled := a.cancels }.stop
        (.incomplete (.badTime s.decoded f.time s.lastTime))) := by
  have hpull := (pull_badTime (s := s.pulling ⟨a :: rest, duration⟩) duration rest hc ha hf).2
  rw [drain_of_next_some ((next_pulling s _ duration).trans hpull), drain_stop]
  rfl

/-- What a sampler yields for an acceptable frame: the frame if the cadence takes it. -/
def takes (s : Sampler α π) (f : DecodedFrame α π) : List (Frame α π) :=
  if (s.cadence.offer s.interval f.time).1 then [⟨s.decoded, f.time, f.image⟩] else []

/-- After an acceptable frame, taken or not, the run goes on. -/
theorem drain_pulling_frame (hc : s.cancelled = false) (ha : a.pull = .frame f)
    (hf : s.acceptsTime f.time = true) (rest : List (DecoderAnswer α π))
    (duration : Option α) :
    (s.pulling ⟨a :: rest, duration⟩).drain =
      ((s.takes f).map .ok ++ (s.afterFrame f.time a.cancels ⟨rest, duration⟩).drain.1,
        (s.afterFrame f.time a.cancels ⟨rest, duration⟩).drain.2) := by
  cases htaken : (s.cadence.offer s.interval f.time).1 with
  | true =>
      have hpull :=
        (pull_taken (s := s.pulling ⟨a :: rest, duration⟩) duration rest hc ha hf htaken).2
      rw [drain_of_next_some ((next_pulling s _ duration).trans hpull), takes, if_pos htaken]
      rfl
  | false =>
      have hpull :=
        (pull_skipped (s := s.pulling ⟨a :: rest, duration⟩) duration rest hc ha hf htaken).2
      have hnext : (s.pulling ⟨a :: rest, duration⟩).next =
          (s.afterFrame f.time a.cancels ⟨rest, duration⟩).next :=
        (next_pulling s _ duration).trans hpull
      rw [drain_congr hnext, takes, if_neg (by simp [htaken])]
      rfl

end Answer

/-! ### Many frames -/

def advanceOver (s : Sampler α π) (fs : List (DecodedFrame α π)) : Sampler α π :=
  fs.foldl (fun s f => s.advance f.time) s

def AcceptsAll (s : Sampler α π) : List (DecodedFrame α π) → Prop
  | [] => True
  | f :: fs => s.acceptsTime f.time = true ∧ (s.advance f.time).AcceptsAll fs

def takesFrom (s : Sampler α π) : List (DecodedFrame α π) → List (Frame α π)
  | [] => []
  | f :: fs => s.takes f ++ (s.advance f.time).takesFrom fs

@[simp] theorem cancelled_advanceOver (s : Sampler α π) (fs : List (DecodedFrame α π)) :
    (s.advanceOver fs).cancelled = s.cancelled := by
  induction fs generalizing s with
  | nil => rfl
  | cons f fs ih => exact ih (s.advance f.time)

@[simp] theorem decoded_advanceOver (s : Sampler α π) (fs : List (DecodedFrame α π)) :
    (s.advanceOver fs).decoded = s.decoded + fs.length := by
  induction fs generalizing s with
  | nil => rfl
  | cons f fs ih => exact (ih (s.advance f.time)).trans (by simp [advance]; omega)

theorem advanceOver_append (s : Sampler α π) (fs gs : List (DecodedFrame α π)) :
    s.advanceOver (fs ++ gs) = (s.advanceOver fs).advanceOver gs := List.foldl_append

theorem acceptsAll_append {fs gs : List (DecodedFrame α π)} :
    s.AcceptsAll (fs ++ gs) ↔ s.AcceptsAll fs ∧ (s.advanceOver fs).AcceptsAll gs := by
  induction fs generalizing s with
  | nil => exact (true_and _).symm.to_iff
  | cons f fs ih => exact (and_congr_right fun _ => ih).trans and_assoc.symm

theorem takesFrom_append (s : Sampler α π) (fs gs : List (DecodedFrame α π)) :
    s.takesFrom (fs ++ gs) = s.takesFrom fs ++ (s.advanceOver fs).takesFrom gs := by
  induction fs generalizing s with
  | nil => rfl
  | cons f fs ih =>
      rw [List.cons_append, takesFrom, takesFrom, ih, List.append_assoc]
      rfl

/-- Frames are numbered on from those decoded before. -/
theorem number_of_mem_takesFrom {fs : List (DecodedFrame α π)} {f : Frame α π}
    (hf : f ∈ s.takesFrom fs) :
    s.decoded ≤ f.number ∧ f.number < s.decoded + fs.length := by
  induction fs generalizing s with
  | nil => cases hf
  | cons g fs ih =>
      rw [List.length_cons]
      rcases List.mem_append.1 hf with hf | hf
      · unfold takes at hf
        split at hf
        · rw [List.mem_singleton.1 hf]
          exact ⟨le_refl _, by dsimp only; omega⟩
        · cases hf
      · obtain ⟨hle, hlt⟩ := ih hf
        have hdecoded : (s.advance g.time).decoded = s.decoded + 1 := rfl
        omega

/-- What is taken of the first frames is what has their numbers. -/
theorem takesFrom_take (s : Sampler α π) {fs : List (DecodedFrame α π)} {k : ℕ}
    (hk : k ≤ fs.length) :
    s.takesFrom (fs.take k) = (s.takesFrom fs).filter fun f => f.number < s.decoded + k := by
  have hlength : (fs.take k).length = k := List.length_take_of_le hk
  conv => rhs; rw [← List.take_append_drop k fs, takesFrom_append, List.filter_append]
  rw [List.filter_eq_self.2 fun f hf => ?_, List.filter_eq_nil_iff.2 fun f hf => ?_,
    List.append_nil]
  · have hlow := (number_of_mem_takesFrom hf).1
    rw [decoded_advanceOver, hlength] at hlow
    simpa using hlow
  · have hhigh := (number_of_mem_takesFrom hf).2
    rw [hlength] at hhigh
    exact decide_eq_true hhigh

/-- Running to the end where the decoder begins with acceptable frames. -/
theorem drain_pulling_append {fs : List (DecodedFrame α π)} (hc : s.cancelled = false)
    (hfs : s.AcceptsAll fs) (rest : List (DecoderAnswer α π)) (duration : Option α) :
    (s.pulling ⟨fs.map DecodedFrame.answer ++ rest, duration⟩).drain =
      ((s.takesFrom fs).map .ok ++ ((s.advanceOver fs).pulling ⟨rest, duration⟩).drain.1,
        ((s.advanceOver fs).pulling ⟨rest, duration⟩).drain.2) := by
  induction fs generalizing s with
  | nil => rfl
  | cons f fs ih =>
      have hafter : s.afterFrame f.time false ⟨fs.map DecodedFrame.answer ++ rest, duration⟩ =
          (s.advance f.time).pulling ⟨fs.map DecodedFrame.answer ++ rest, duration⟩ := by
        simp only [afterFrame, pulling, advance, hc]
      have hstep :=
        drain_pulling_frame (a := f.answer) hc rfl hfs.1 (fs.map DecodedFrame.answer ++ rest)
          duration
      rw [List.map_cons, List.cons_append, hstep, show f.answer.cancels = false from rfl,
        hafter, ih (s := s.advance f.time) hc hfs.2, takesFrom, List.map_append,
        List.append_assoc]
      rfl

/-- Running to the end where the job is cancelled with the last of some acceptable frames. -/
theorem drain_pulling_cancelling {fs : List (DecodedFrame α π)} {f : DecodedFrame α π}
    (hc : s.cancelled = false) (hfs : s.AcceptsAll (fs ++ [f]))
    (rest : List (DecoderAnswer α π)) (duration : Option α) :
    (s.pulling ⟨fs.map DecodedFrame.answer ++ ⟨.frame f, true⟩ :: rest, duration⟩).drain =
      ((s.takesFrom (fs ++ [f])).map .ok,
        { s.advanceOver (fs ++ [f]) with cancelled := true }.stop .cancelled) := by
  obtain ⟨hbefore, hf, -⟩ := acceptsAll_append.1 hfs
  have hafter : ((s.advanceOver fs).afterFrame f.time true ⟨rest, duration⟩).drain =
      ([], { s.advanceOver (fs ++ [f]) with cancelled := true }.stop .cancelled) := by
    have hrefused :=
      drain_pulling_cancelled
        (s := (s.advanceOver fs).afterFrame f.time true ⟨rest, duration⟩) rfl
      ⟨rest, duration⟩
    rw [advanceOver_append]
    exact hrefused
  rw [drain_pulling_append hc hbefore,
    drain_pulling_frame ((cancelled_advanceOver s fs).trans hc) rfl hf, hafter,
    takesFrom_append, List.map_append]
  simp only [takesFrom, List.append_nil]

/-! ### The answer that ends a run -/

def Halts (s : Sampler α π) (answers : List (DecoderAnswer α π)) : Prop :=
  ∀ a ∈ answers.head?, ∀ f, a.pull = .frame f → s.acceptsTime f.time = false

/-- A run that halts takes no more frames, and only the next answer counts. -/
theorem exists_drain_of_halts {answers : List (DecoderAnswer α π)} (hc : s.cancelled = false)
    (h : s.Halts answers) :
    ∃ (reason? : Option (StopReason α)) (c : Completion α) (cancels : Bool),
      c ≠ .cancelled ∧ ∀ answers', answers'.head? = answers.head? → ∀ duration,
        (s.pulling ⟨answers', duration⟩).drain =
          (reason?.toList.map .error, { s with cancelled := cancels }.stop c) := by
  cases answers with
  | nil =>
      refine ⟨none, .complete, false, by simp, fun answers' hhead duration => ?_⟩
      obtain rfl : answers' = [] := by simpa using hhead
      rw [drain_pulling_nil hc, ← hc]
      rfl
  | cons a rest =>
      have hcons : ∀ answers' : List (DecoderAnswer α π), answers'.head? = (a :: rest).head? →
          ∃ rest', answers' = a :: rest' := by
        intro answers' hhead
        cases answers' with
        | nil => cases hhead
        | cons b rest' => exact ⟨rest', by rw [Option.some.inj hhead]⟩
      cases ha : a.pull with
      | finished =>
          refine ⟨none, .complete, a.cancels, by simp, fun answers' hhead duration => ?_⟩
          obtain ⟨rest', rfl⟩ := hcons answers' hhead
          exact drain_pulling_finished hc ha rest' duration
      | failed message =>
          refine ⟨some (.decoder message), .incomplete (.decoder message), a.cancels, by simp,
            fun answers' hhead duration => ?_⟩
          obtain ⟨rest', rfl⟩ := hcons answers' hhead
          exact drain_pulling_failed hc ha rest' duration
      | frame f =>
          refine ⟨some (.badTime s.decoded f.time s.lastTime),
            .incomplete (.badTime s.decoded f.time s.lastTime),
            a.cancels, by simp, fun answers' hhead duration => ?_⟩
          obtain ⟨rest', rfl⟩ := hcons answers' hhead
          exact drain_pulling_badTime hc ha (h a rfl f ha) rest' duration

/-- Answers that do not cancel the job are acceptable frames up to an answer
that ends the run. -/
theorem exists_stretch (s : Sampler α π) {answers : List (DecoderAnswer α π)}
    (hfree : ∀ a ∈ answers, a.cancels = false) :
    ∃ fs rest, answers = fs.map DecodedFrame.answer ++ rest ∧ s.AcceptsAll fs ∧
      (s.advanceOver fs).Halts rest := by
  induction answers generalizing s with
  | nil => exact ⟨[], [], rfl, trivial, fun a ha => by cases ha⟩
  | cons a answers ih =>
      by_cases hgood : ∃ f, a.pull = .frame f ∧ s.acceptsTime f.time = true
      · obtain ⟨f, ha, hf⟩ := hgood
        obtain ⟨fs, rest, rfl, hfs, hrest⟩ :=
          ih (s.advance f.time) fun b hb => hfree b (List.mem_cons_of_mem a hb)
        have hanswer : a = f.answer := by
          have hcancels := hfree a List.mem_cons_self
          obtain ⟨pull, cancels⟩ := a
          rw [DecodedFrame.answer, ← ha, ← hcancels]
        exact ⟨f :: fs, rest, by rw [hanswer]; rfl, ⟨hf, hfs⟩, hrest⟩
      · refine ⟨[], a :: answers, rfl, trivial, fun b hb f hf => ?_⟩
        obtain rfl : a = b := Option.some.inj hb
        exact Bool.eq_false_iff.2 fun htrue => hgood ⟨f, hf, htrue⟩

end Sampler

end VideoFingerprint
