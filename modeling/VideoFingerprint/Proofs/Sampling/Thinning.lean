import VideoFingerprint.Proofs.Number.Bits
import VideoFingerprint.Proofs.Sampling.Selection

/-!
Leaving out frames that a sampler does not select. A frame that is not taken leaves the grid
and the next sample time as they are, so a sampler that never sees it goes on with the same
cadence; only the count of frames and the time of the last one differ. What is selected is then
the same, in any arithmetic, and of the selected frames alone all are selected again.
-/

namespace VideoFingerprint

open Binary64

variable {α π : Type}

/-- The frames that are left when only some places are kept, the first frame having
the place `n`. -/
def keptFrames (keep : ℕ → Bool) (n : ℕ) (fs : List (DecodedFrame α π)) :
    List (DecodedFrame α π) :=
  ((fs.zipIdx n).filter fun p => keep p.2).map Prod.fst

theorem keptFrames_cons (keep : ℕ → Bool) (n : ℕ) (f : DecodedFrame α π)
    (fs : List (DecodedFrame α π)) :
    keptFrames keep n (f :: fs) = if keep n then f :: keptFrames keep (n + 1) fs
      else keptFrames keep (n + 1) fs := by
  rw [keptFrames, List.zipIdx_cons, List.filter_cons, apply_ite (List.map Prod.fst),
    List.map_cons]
  rfl

theorem keptFrames_sublist (keep : ℕ → Bool) (n : ℕ) (fs : List (DecodedFrame α π)) :
    (keptFrames keep n fs).Sublist fs := by
  have hsub := (List.filter_sublist (l := fs.zipIdx n) (p := fun p => keep p.2)).map Prod.fst
  rwa [List.zipIdx_map_fst] at hsub

namespace Sampler

variable [Scalar α] {s s' : Sampler α π} {f : DecodedFrame α π} {fs : List (DecodedFrame α π)}

/-! ### One frame -/

/-- Two samplers that are at the same point of the same cadence. -/
structure SameCadence (s s' : Sampler α π) : Prop where
  interval_eq : s'.interval = s.interval
  cadence_eq : s'.cadence = s.cadence

theorem SameCadence.advance (h : SameCadence s s') (time : α) :
    SameCadence (s.advance time) (s'.advance time) where
  interval_eq := h.interval_eq
  cadence_eq := by
    change (s'.cadence.offer s'.interval time).2 = (s.cadence.offer s.interval time).2
    rw [h.interval_eq, h.cadence_eq]

/-- A sampler that does not see a frame that is not taken stays at the same point. -/
theorem SameCadence.skip (h : SameCadence s s') (hf : s.takes f = []) :
    SameCadence (s.advance f.time) s' where
  interval_eq := h.interval_eq
  cadence_eq := by
    have htaken : (s.cadence.offer s.interval f.time).1 = false := by simpa [takes] using hf
    exact h.cadence_eq.trans (Cadence.offer_of_not_taken htaken).symm

theorem takes_eq_nil_or (s : Sampler α π) (f : DecodedFrame α π) :
    s.takes f = [] ∨ s.takes f = [⟨s.decoded, f.time, f.image⟩] := by
  unfold takes
  split
  · exact .inr rfl
  · exact .inl rfl

/-- At the same point the same frames are taken, in whatever places they are. -/
theorem SameCadence.takes_eq (h : SameCadence s s') (f : DecodedFrame α π) :
    s'.takes f = (s.takes f).map fun x => ⟨s'.decoded, x.time, x.image⟩ := by
  rw [takes, takes, h.interval_eq, h.cadence_eq]
  split <;> rfl

/-! ### Many frames -/

/-- Leaving out frames that are not taken leaves what is taken as it is. -/
theorem SameCadence.map_takesFrom_keptFrames (h : SameCadence s s') {keep : ℕ → Bool}
    (hkeep : ∀ x ∈ s.takesFrom fs, keep x.number = true) :
    (s'.takesFrom (keptFrames keep s.decoded fs)).map Frame.toDecoded =
      (s.takesFrom fs).map Frame.toDecoded := by
  induction fs generalizing s s' with
  | nil => rfl
  | cons f fs ih =>
      obtain ⟨hhead, htail⟩ := List.forall_mem_append.1 hkeep
      rw [keptFrames_cons, takesFrom, List.map_append]
      split
      · rw [takesFrom, List.map_append, h.takes_eq f, List.map_map,
          ← ih (h.advance f.time) htail]
        rfl
      · rename_i hleft
        have hskipped : s.takes f = [] := by
          refine (s.takes_eq_nil_or f).resolve_right fun htaken => hleft ?_
          exact hhead ⟨s.decoded, f.time, f.image⟩ (htaken ▸ List.mem_singleton_self _)
        rw [hskipped, List.map_nil, List.nil_append, ← ih (h.skip hskipped) htail]
        rfl

/-- Of the frames that are taken, all are taken again. -/
theorem SameCadence.takesFrom_taken (h : SameCadence s s') :
    s'.takesFrom ((s.takesFrom fs).map Frame.toDecoded) =
      numberedFrom s'.decoded ((s.takesFrom fs).map Frame.toDecoded) := by
  induction fs generalizing s s' with
  | nil => rfl
  | cons f fs ih =>
      rw [takesFrom]
      rcases s.takes_eq_nil_or f with hskipped | htaken
      · rw [hskipped, List.nil_append]
        exact ih (h.skip hskipped)
      · have hagain : s'.takes f = [⟨s'.decoded, f.time, f.image⟩] := by
          rw [h.takes_eq f, htaken, List.map_singleton]
        rw [htaken, List.singleton_append, List.map_cons, numberedFrom_cons]
        change s'.takes f ++ (s'.advance f.time).takesFrom _ = _
        rw [hagain, ih (h.advance f.time)]
        rfl

theorem map_toDecoded_takesFrom_sublist :
    ((s.takesFrom fs).map Frame.toDecoded).Sublist fs := by
  induction fs generalizing s with
  | nil => exact List.Sublist.slnil
  | cons f fs ih =>
      rw [takesFrom]
      rcases s.takes_eq_nil_or f with hskipped | htaken
      · rw [hskipped, List.nil_append]
        exact ih.cons f
      · rw [htaken, List.singleton_append, List.map_cons]
        exact ih.cons_cons f

/-! ### Finite times -/

theorem timesRise_float {frames : List (DecodedFrame Float π)}
    (htimes : ∀ f ∈ frames, f.time.isFinite = true ∧ 0 ≤ f.time)
    (hrising : frames.Pairwise fun f g => f.time ≤ g.time) : TimesRise frames where
  inRange f hf :=
    ⟨(htimes f hf).1, decide_eq_false
      ((not_lt_iff_le (isNaN_eq_false (htimes f hf).1) (by decide)).2 (htimes f hf).2)⟩
  rising := hrising.imp fun {f g} h => by
    obtain ⟨hf, hg⟩ := not_isNaN_of_le h
    exact decide_eq_false ((not_lt_iff_le hg hf).2 h)

/-- Frames that are not selected can be left out, in any number: what is selected has the same
times and images. Of the selected frames alone, all are selected. -/
theorem selection_of_kept_frames {frames : List (DecodedFrame Float π)} (seconds : Float)
    (htimes : ∀ f ∈ frames, f.time.isFinite = true ∧ 0 ≤ f.time)
    (hrising : frames.Pairwise fun f g => f.time ≤ g.time) :
    ∃ picked, Selects seconds frames picked ∧
      (∀ keep : ℕ → Bool, (∀ x ∈ picked, keep x.number = true) →
        ∃ picked', Selects seconds (keptFrames keep 0 frames) picked' ∧
          picked'.map Frame.toDecoded = picked.map Frame.toDecoded) ∧
      Selects seconds (picked.map Frame.toDecoded)
        (numberedFrom 0 (picked.map Frame.toDecoded)) := by
  have hrise := timesRise_float htimes hrising
  have hsame : SameCadence (unstarted seconds : Sampler Float π) (unstarted seconds) :=
    ⟨rfl, rfl⟩
  refine ⟨(unstarted seconds).takesFrom frames, hrise.selects seconds,
    fun keep hkeep => ?_, ?_⟩
  · exact ⟨_, (hrise.sublist (keptFrames_sublist keep 0 frames)).selects seconds,
      hsame.map_takesFrom_keptFrames hkeep⟩
  · have hselects :=
      (hrise.sublist (map_toDecoded_takesFrom_sublist (s := unstarted seconds))).selects
        seconds
    rwa [hsame.takesFrom_taken] at hselects

theorem selection_of_kept_frames_without_second :
    let frames : List (DecodedFrame Float Unit) := [⟨(), 0⟩, ⟨(), 0.4⟩, ⟨(), 1.2⟩]
    (∀ f ∈ frames, f.time.isFinite = true ∧ 0 ≤ f.time) ∧
    (frames.Pairwise fun f g => f.time ≤ g.time) ∧
      ∃ picked picked', Selects 1 frames picked ∧ (∀ x ∈ picked, (x.number != 1) = true) ∧
        Selects 1 [⟨(), 0⟩, ⟨(), 1.2⟩] picked' ∧
        picked'.map Frame.toDecoded = picked.map Frame.toDecoded := by
  intro frames
  have htimes : ∀ f ∈ frames, f.time.isFinite = true ∧ 0 ≤ f.time := by decide +kernel
  have hrising : frames.Pairwise fun f g => f.time ≤ g.time := by decide +kernel
  obtain ⟨picked, hpicked, hkept, -⟩ := selection_of_kept_frames 1 htimes hrising
  have hkeep : ∀ x ∈ picked, (x.number != 1) = true := by
    rw [hpicked.unique ((timesRise_float htimes hrising).selects 1)]
    decide +kernel
  obtain ⟨picked', hpicked', hsame⟩ := hkept (fun i => i != 1) hkeep
  exact ⟨htimes, hrising, picked, picked', hpicked, hkeep, hpicked', hsame⟩

end Sampler

end VideoFingerprint
