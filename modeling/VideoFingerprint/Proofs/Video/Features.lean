import VideoFingerprint.Proofs.Fingerprint.Order
import VideoFingerprint.Proofs.Number.Arithmetic
import VideoFingerprint.Proofs.Outcome
import VideoFingerprint.Proofs.Sampling.Drain
import VideoFingerprint.Proofs.Sorting
import VideoFingerprint.Video.Hashing

/-!
The features of sampled frames. A frame is hashed unless it is too small, and a quality is
always in range, so the features of a sampler's frames make a fingerprint, in whatever order
they arrive.
-/

namespace VideoFingerprint

open Binary64 Outcome

/-! ### Qualities -/

theorem not_isNaN_roundHalfAway {x : Float} (hx : x.isFinite = true) :
    (roundHalfAway x).isNaN = false := by
  rw [roundHalfAway, if_pos hx, ofMagnitude, Bool.eq_false_iff, ne_eq, isNaN_iff,
    pattern_ofPattern (nearestPattern_le _ _)]
  exact (nearestPattern_le _ _).not_gt

/-- The quality of any energy is in range, also when the energy is no number. -/
theorem Quality.inRange_ofEnergy (energy : Float) :
    Quality.inRange (Quality.ofEnergy energy) = true := by
  have hbest : (100 : Float).isNaN = false := by decide +kernel
  have hzero : (0 : Float).isNaN = false := by decide +kernel
  rw [Quality.ofEnergy]
  split
  · rename_i hfinite
    have hnumber : (roundHalfAway energy).isNaN = false := not_isNaN_roundHalfAway hfinite
    rw [Scalar.clamp]
    split
    · decide +kernel
    · rename_i hlow
      have hnonneg : 0 ≤ roundHalfAway energy :=
        (not_lt_iff_le hnumber hzero).1 fun hlt => hlow (decide_eq_true hlt)
      split
      · decide +kernel
      · rename_i hhigh
        have hle : roundHalfAway energy ≤ 100 :=
          (not_lt_iff_le hbest hnumber).1 fun hlt => hhigh (decide_eq_true hlt)
        exact decide_eq_true ⟨hnonneg, hle⟩
  · decide +kernel

/-! ### Hashing one frame -/

def Frame.tooSmall (f : Frame Float Image) : Bool :=
  f.image.width < FrameHash.minSide ∨ f.image.height < FrameHash.minSide

namespace VideoHashing

variable {transformRow : RowTransform}

theorem hashFrame_of_tooSmall {f : Frame Float Image} (h : f.tooSmall = true) :
    hashFrame transformRow f =
      .error (.cannotHash f.number (.frameTooSmall f.image.width f.image.height)) := by
  have hsmall := of_decide_eq_true h
  have hnot :
      ¬ (FrameHash.minSide ≤ f.image.lumaPlane.width ∧
        FrameHash.minSide ≤ f.image.lumaPlane.height) := by
    show ¬ (FrameHash.minSide ≤ f.image.width ∧ FrameHash.minSide ≤ f.image.height)
    omega
  rw [hashFrame, FrameHash.ofPlane, dif_neg hnot]
  rfl

theorem exists_hashFrame (transformRow : RowTransform) {f : Frame Float Image}
    (h : f.tooSmall = false) : ∃ x, hashFrame transformRow f = .ok x := by
  have hlarge := of_decide_eq_false h
  have hsize : FrameHash.minSide ≤ f.image.lumaPlane.width ∧
      FrameHash.minSide ≤ f.image.lumaPlane.height := by
    show FrameHash.minSide ≤ f.image.width ∧ FrameHash.minSide ≤ f.image.height
    omega
  obtain ⟨hash, hhash⟩ : ∃ hash, FrameHash.ofPlane transformRow f.image.lumaPlane = .ok hash :=
    ⟨_, dif_pos hsize⟩
  exact ⟨⟨f.number, f.time, hash.hash, hash.quality⟩, by rw [hashFrame, hhash]⟩

/-- A feature has the number and the time of its frame, and a quality in range. -/
theorem feature_of_hashFrame {f : Frame Float Image} {x : Feature}
    (h : hashFrame transformRow f = .ok x) :
    x.frame = f.number ∧ x.time = f.time ∧ Quality.inRange x.quality = true := by
  unfold hashFrame at h
  split at h
  · rename_i hash hhash
    cases h
    exact ⟨rfl, rfl, Quality.inRange_ofEnergy hash.energy⟩
  · cases h

/-- Features keep the numbers of their frames. -/
theorem map_frame_of_map_hashFrame {frames : List (Frame Float Image)} {fs : List Feature}
    (h : frames.map (hashFrame transformRow) = fs.map .ok) :
    fs.map Feature.frame = frames.map Frame.number := by
  induction frames generalizing fs with
  | nil =>
      obtain rfl : fs = [] := List.map_eq_nil_iff.1 h.symm
      rfl
  | cons f frames ih =>
      obtain ⟨x, fs, rfl, hx, hfs⟩ := List.map_eq_cons_iff.1 h.symm
      rw [List.map_cons, List.map_cons, (feature_of_hashFrame hx.symm).1, ih hfs.symm]

/-! ### Hashing frames in order -/

/-- Features that make a fingerprint as they stand. -/
structure InOrder (fs : List Feature) : Prop where
  rising : fs.Pairwise fun x y => x.frame < y.frame ∧ x.time ≤ y.time
  inRange : ∀ x ∈ fs, Quality.inRange x.quality = true ∧ Feature.timeInRange x.time = true

theorem InOrder.firstFault? {fs : List Feature} (h : InOrder fs) :
    Fingerprint.firstFault? fs = none := by
  refine Fingerprint.firstFault?_eq_none_iff.2 ⟨h.inRange, (h.rising.imp_of_mem ?_).isChain⟩
  intro x y hx hy hxy
  refine ⟨hxy.1, (not_lt_iff_le ?_ ?_).2 hxy.2⟩
  · exact not_isNaN_of_timeInRange (h.inRange y hy).2
  · exact not_isNaN_of_timeInRange (h.inRange x hx).2

/-- Results that are all successes are the successes of their values. -/
theorem eq_map_ok_of_forall {ε α : Type} {results : List (Except ε α)}
    (h : ∀ r ∈ results, ∃ x, r = .ok x) :
    results = (results.filterMap Except.toOption).map .ok := by
  induction results with
  | nil => rfl
  | cons r results ih =>
      obtain ⟨x, rfl⟩ := h r List.mem_cons_self
      have hrest := ih fun r' hr' => h r' (List.mem_cons_of_mem _ hr')
      exact congrArg (Except.ok x :: ·) hrest

/-- Frames in order, all of sufficient size, have features in order. -/
theorem exists_features (transformRow : RowTransform) {frames : List (Frame Float Image)}
    (hlarge : ∀ f ∈ frames, f.tooSmall = false)
    (hordered : frames.Pairwise fun f g => f.number < g.number ∧ f.time ≤ g.time)
    (htimes : ∀ f ∈ frames, Feature.timeInRange f.time = true) :
    ∃ fs, frames.map (hashFrame transformRow) = fs.map .ok ∧ InOrder fs := by
  have hall : ∀ r ∈ frames.map (hashFrame transformRow), ∃ x, r = .ok x := by
    intro r hr
    obtain ⟨f, hf, rfl⟩ := List.mem_map.1 hr
    exact exists_hashFrame transformRow (hlarge f hf)
  refine ⟨_, eq_map_ok_of_forall hall, ?_, fun x hx => ?_⟩
  · rw [List.filterMap_map]
    refine List.pairwise_filterMap.2 (hordered.imp fun {f g} hfg x hx y hy => ?_)
    obtain ⟨hnumber, htime, -⟩ := feature_of_hashFrame (toOption_eq_some_iff.1 hx)
    obtain ⟨hnumber', htime', -⟩ := feature_of_hashFrame (toOption_eq_some_iff.1 hy)
    rw [hnumber, htime, hnumber', htime']
    exact hfg
  · rw [List.filterMap_map] at hx
    obtain ⟨f, hf, hx⟩ := List.mem_filterMap.1 hx
    obtain ⟨-, htime, hquality⟩ := feature_of_hashFrame (toOption_eq_some_iff.1 hx)
    exact ⟨hquality, htime ▸ htimes f hf⟩

/-! ### Hashes in any order -/

/-- Of some times, the first of which is already known, the latest is one of them, and
none is later. -/
theorem exists_foldl_latest (fs : List Feature) {start : Float}
    (hstart : Feature.timeInRange start = true)
    (htimes : ∀ f ∈ fs, Feature.timeInRange f.time = true) :
    ∃ latest, fs.foldl (fun latest f =>
      some (latest.elim f.time fun t => if t < f.time then f.time else t))
        (some start) = some latest ∧
      (latest = start ∨ ∃ f ∈ fs, f.time = latest) ∧ start ≤ latest ∧
      ∀ f ∈ fs, f.time ≤ latest := by
  have hnumber : ∀ {time : Float}, Feature.timeInRange time = true → time.isNaN = false :=
    fun h => not_isNaN_of_timeInRange h
  induction fs generalizing start with
  | nil =>
      exact ⟨start, rfl, Or.inl rfl,
        (le_iff (hnumber hstart) (hnumber hstart)).2 le_rfl, by simp⟩
  | cons f fs ih =>
      have hf := htimes f List.mem_cons_self
      have hrest : ∀ g ∈ fs, Feature.timeInRange g.time = true :=
        fun g hg => htimes g (List.mem_cons_of_mem f hg)
      by_cases hlt : start < f.time
      · obtain ⟨latest, heq, hmem, hle, hall⟩ := ih hf hrest
        have hle' : start ≤ f.time := by
          rw [lt_iff (hnumber hstart) (hnumber hf)] at hlt
          exact (le_iff (hnumber hstart) (hnumber hf)).2 hlt.le
        refine ⟨latest, by simpa [hlt] using heq, Or.inr ?_, le_of_le_of_le hle' hle, ?_⟩
        · rcases hmem with rfl | ⟨g, hg, rfl⟩
          · exact ⟨f, List.mem_cons_self, rfl⟩
          · exact ⟨g, List.mem_cons_of_mem f hg, rfl⟩
        · exact List.forall_mem_cons.2 ⟨hle, hall⟩
      · obtain ⟨latest, heq, hmem, hle, hall⟩ := ih hstart hrest
        have hle' : f.time ≤ start := (not_lt_iff_le (hnumber hstart) (hnumber hf)).1 hlt
        refine ⟨latest, by simpa [hlt] using heq, ?_, hle, ?_⟩
        · rcases hmem with rfl | ⟨g, hg, rfl⟩
          · exact Or.inl rfl
          · exact Or.inr ⟨g, List.mem_cons_of_mem f hg, rfl⟩
        · exact List.forall_mem_cons.2 ⟨le_of_le_of_le hle' hle, hall⟩

/-- The latest of some times is one of them, and none is later. -/
theorem exists_latestTime {fs : List Feature} (hne : fs ≠ [])
    (htimes : ∀ f ∈ fs, Feature.timeInRange f.time = true) :
    ∃ latest, latestTime? fs = some latest ∧ (∃ f ∈ fs, f.time = latest) ∧
      ∀ f ∈ fs, f.time ≤ latest := by
  cases fs with
  | nil => exact absurd rfl hne
  | cons f fs =>
      obtain ⟨latest, heq, hmem, hle, hall⟩ :=
        exists_foldl_latest fs (htimes f List.mem_cons_self)
        fun g hg => htimes g (List.mem_cons_of_mem f hg)
      refine ⟨latest, heq, ?_, List.forall_mem_cons.2 ⟨hle, hall⟩⟩
      rcases hmem with rfl | ⟨g, hg, rfl⟩
      · exact ⟨f, List.mem_cons_self, rfl⟩
      · exact ⟨g, List.mem_cons_of_mem f hg, rfl⟩

/-- The latest time does not depend on the order of the features, but for the sign of zero. -/
theorem latestTime?_perm {fs fs' : List Feature} (hperm : fs'.Perm fs)
    (htimes : ∀ f ∈ fs, Feature.timeInRange f.time = true) :
    ((latestTime? fs).getD 0 == (latestTime? fs').getD 0) = true := by
  by_cases hne : fs = []
  · subst hne
    rw [List.perm_nil.1 hperm]
    decide +kernel
  · have hne' : fs' ≠ [] := by
      rintro rfl
      exact hne (List.nil_perm.1 hperm)
    obtain ⟨latest, heq, ⟨f, hf, rfl⟩, hall⟩ := exists_latestTime hne htimes
    obtain ⟨latest', heq', ⟨f', hf', rfl⟩, hall'⟩ :=
      exists_latestTime hne' fun f hf => htimes f (hperm.subset hf)
    rw [heq, heq']
    exact beq_of_le_of_le (hall' f (hperm.symm.subset hf)) (hall f' (hperm.subset hf'))

/-- Features in any order, which are put in order, make a fingerprint. -/
theorem ofUnordered_of_perm {fs fs' : List Feature} (h : InOrder fs) (hperm : fs'.Perm fs)
    (interval duration : Float) :
    Fingerprint.ofUnordered fs' interval duration =
      .ok ⟨fs, interval, duration, h.firstFault?⟩ := by
  rw [Fingerprint.ofUnordered, mergeSort_eq_of_perm hperm (h.rising.imp And.left)]
  exact Fingerprint.ofFeatures_eq_ok_iff.2 ⟨rfl, rfl, rfl⟩

theorem finish_of_perm {fs fs' : List Feature} (h : InOrder fs) (hperm : fs'.Perm fs)
    (interval : Float) (duration : Option Float) (s : Sampler Float Image) :
    finish interval duration s fs' = .ok (.ok
      ⟨⟨fs, interval, (duration.or (latestTime? fs')).getD 0, h.firstFault?⟩,
        s.completion?.getD .complete, s.decoded⟩) := by
  rw [finish, ofUnordered_of_perm h hperm]

end VideoHashing

end VideoFingerprint
