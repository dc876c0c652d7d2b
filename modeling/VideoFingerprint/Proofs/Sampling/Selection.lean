import VideoFingerprint.Proofs.Sampling.Stretch

/-!
What a sampler selects of frames whose times are in order. The frames that it passes on are
settled by the cadence alone, one frame after another. What the decoder answers after them,
frames, the end of the video or a failure, has no say in it.
-/

namespace VideoFingerprint

open Scalar

variable {α π : Type}

def Frame.toDecoded (f : Frame α π) : DecodedFrame α π := ⟨f.image, f.time⟩

def numberedFrom (n : ℕ) (fs : List (DecodedFrame α π)) : List (Frame α π) :=
  fs.mapIdx fun i f => ⟨n + i, f.time, f.image⟩

theorem numberedFrom_cons (n : ℕ) (f : DecodedFrame α π) (fs : List (DecodedFrame α π)) :
    numberedFrom n (f :: fs) = ⟨n, f.time, f.image⟩ :: numberedFrom (n + 1) fs := by
  rw [numberedFrom, List.mapIdx_cons, numberedFrom]
  simp only [Nat.add_zero, Nat.add_assoc, Nat.add_comm 1]

theorem mem_numberedFrom_zero {fs : List (DecodedFrame α π)} {x : Frame α π} :
    x ∈ numberedFrom 0 fs ↔
      ∃ (i : ℕ) (h : i < fs.length), ⟨i, fs[i].time, fs[i].image⟩ = x := by
  rw [numberedFrom, List.mem_mapIdx]
  simp only [Nat.zero_add]

namespace Sampler

variable [Scalar α] {s : Sampler α π}

def unstarted (seconds : α) : Sampler α π := ofDecoder ⟨[], none⟩ seconds false

@[simp] theorem decoded_unstarted (seconds : α) :
    (unstarted seconds : Sampler α π).decoded = 0 := rfl

/-- Of the frames that a decoder gives first, a sampler passes on these and no others, whatever
the decoder answers after them. -/
def Selects (seconds : α) (frames : List (DecodedFrame α π)) (picked : List (Frame α π)) :
    Prop :=
  ∀ (rest : List (DecoderAnswer α π)) (duration : Option α), ∃ later : List (SamplerItem α π),
    (ofDecoder ⟨frames.map DecodedFrame.answer ++ rest, duration⟩ seconds false).drain.1 =
      picked.map .ok ++ later ∧
      (∀ f, .ok f ∈ later → frames.length ≤ f.number) ∧ (rest = [] → later = [])

/-- Sampling selects in one way only. -/
theorem Selects.unique {seconds : α} {frames : List (DecodedFrame α π)}
    {picked picked' : List (Frame α π)} (h : Selects seconds frames picked)
    (h' : Selects seconds frames picked') : picked = picked' := by
  obtain ⟨later, hitems, -, hlater⟩ := h [] none
  obtain ⟨later', hitems', -, hlater'⟩ := h' [] none
  have hsame : (picked.map .ok : List (SamplerItem α π)) ++ later =
      picked'.map .ok ++ later' :=
    hitems.symm.trans hitems'
  rw [hlater rfl, hlater' rfl, List.append_nil, List.append_nil] at hsame
  exact List.map_injective_iff.2 (fun f g hfg => Except.ok.inj hfg) hsame

/-! ### Numbers go on -/

theorem decoded_le_pull (duration : Option α) (s : Sampler α π)
    (answers : List (DecoderAnswer α π)) :
    s.decoded ≤ (s.pull duration answers).2.decoded ∧
      ∀ f, (s.pull duration answers).1 = some (.ok f) → s.decoded ≤ f.number := by
  induction answers generalizing s with
  | nil => exact ⟨le_rfl, nofun⟩
  | cons a rest ih =>
      cases hc : s.cancelled with
      | true =>
          rw [(pull_refused duration (a :: rest) hc).2]
          exact ⟨le_rfl, nofun⟩
      | false =>
          cases ha : a.pull with
          | finished =>
              rw [(pull_finished duration rest hc ha).2]
              exact ⟨le_rfl, nofun⟩
          | failed message =>
              rw [(pull_failed duration rest hc ha).2]
              exact ⟨le_rfl, nofun⟩
          | frame f =>
              cases hf : s.acceptsTime f.time with
              | false =>
                  rw [(pull_badTime duration rest hc ha hf).2]
                  exact ⟨le_rfl, nofun⟩
              | true =>
                  cases htaken : (s.cadence.offer s.interval f.time).1 with
                  | true =>
                      rw [(pull_taken duration rest hc ha hf htaken).2]
                      refine ⟨Nat.le_succ s.decoded, fun g hg => ?_⟩
                      cases hg
                      exact le_rfl
                  | false =>
                      rw [(pull_skipped duration rest hc ha hf htaken).2]
                      obtain ⟨hle, hnumbers⟩ :=
                        ih (s.afterFrame f.time a.cancels ⟨rest, duration⟩)
                      have hnext := Nat.le_succ s.decoded
                      exact ⟨hnext.trans hle, fun g hg => hnext.trans (hnumbers g hg)⟩

/-- A sampler numbers on from the frames that it has decoded. -/
theorem number_of_mem_drain {f : Frame α π} (hf : .ok f ∈ s.drain.1) :
    s.decoded ≤ f.number := by
  have hnext (s : Sampler α π) :
      s.decoded ≤ s.next.2.decoded ∧ ∀ f, s.next.1 = some (.ok f) → s.decoded ≤ f.number := by
    unfold next
    cases s.status with
    | running d => exact decoded_le_pull d.duration s d.answers
    | stopped c => exact ⟨le_rfl, nofun⟩
  induction s using Sampler.drain.induct with
  | case1 s s' h =>
      rw [drain_of_next_none h] at hf
      cases hf
  | case2 s item s' h _ _ _ ih =>
      rw [drain_of_next_some h] at hf
      have hstep := hnext s
      rw [h] at hstep
      rcases List.mem_cons.1 hf with heq | hlater
      · exact hstep.2 f (congrArg some heq.symm)
      · exact hstep.1.trans (ih hlater)

/-! ### Frames in order -/

/-- Times that a sampler accepts one after another. -/
structure TimesRise (fs : List (DecodedFrame α π)) : Prop where
  inRange : ∀ f ∈ fs, isFinite f.time = true ∧ lt f.time (ofNat 0) = false
  rising : fs.Pairwise fun f g => lt g.time f.time = false

variable {fs gs : List (DecodedFrame α π)}

theorem TimesRise.sublist (h : TimesRise fs) (hsub : gs.Sublist fs) : TimesRise gs where
  inRange f hf := h.inRange f (hsub.subset hf)
  rising := h.rising.sublist hsub

theorem TimesRise.acceptsAll (h : TimesRise fs)
    (hlast : ∀ f ∈ fs, lt f.time s.lastTime = false) : s.AcceptsAll fs := by
  induction fs generalizing s with
  | nil => trivial
  | cons f fs ih =>
      obtain ⟨hfinite, hnonneg⟩ := h.inRange f List.mem_cons_self
      refine ⟨by simp [acceptsTime, hfinite, hnonneg, hlast f List.mem_cons_self], ?_⟩
      exact ih (h.sublist (List.sublist_cons_self f fs)) fun g hg =>
        List.rel_of_pairwise_cons h.rising hg

/-- Of frames in order, those are selected that the cadence takes. -/
theorem TimesRise.selects (h : TimesRise fs) (seconds : α) :
    Selects seconds fs ((unstarted seconds).takesFrom fs) := by
  intro rest duration
  have hdrain :=
    drain_pulling_append (s := unstarted seconds) rfl
      (h.acceptsAll fun f hf => (h.inRange f hf).2) rest
    duration
  refine ⟨(((unstarted seconds).advanceOver fs).pulling ⟨rest, duration⟩).drain.1,
    congrArg Prod.fst hdrain, fun f hf => ?_, fun hrest => ?_⟩
  · have hdecoded := decoded_advanceOver (unstarted seconds) fs
    rw [decoded_unstarted, Nat.zero_add] at hdecoded
    have hnumber := number_of_mem_drain hf
    change ((unstarted seconds).advanceOver fs).decoded ≤ f.number at hnumber
    rwa [hdecoded] at hnumber
  · rw [hrest, drain_pulling_nil (cancelled_advanceOver (unstarted seconds) fs)]

end Sampler

end VideoFingerprint
