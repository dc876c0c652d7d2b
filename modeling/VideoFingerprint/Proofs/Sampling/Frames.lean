import Mathlib.Data.List.Basic
import VideoFingerprint.Fingerprint.Basic
import VideoFingerprint.Proofs.Number.Bits
import VideoFingerprint.Sampling.Sampler

/-!
Decoded frames and the frames taken from them. A sampler remembers little of the frames it has
decoded: how many there were, and the times of the first and the last one. This is enough to
know that their times never fell, and that the frames it has taken are some of them, numbered
in decode order, the first one among them.
-/

namespace VideoFingerprint

open Binary64

variable {π : Type}

/-! ### Times of decoded frames -/

/-- A time that can stand after another: it is finite, not negative and not earlier. -/
def timeFollows (previous time : Float) : Bool := Feature.timeInRange time ∧ ¬ time < previous

def timeOfLast (previous : Float) (fs : List (DecodedFrame Float π)) : Float :=
  fs.foldl (fun _ f => f.time) previous

/-- The number of frames whose time can stand after the time of the frame before. -/
def countAcceptable (previous : Float) : List (DecodedFrame Float π) → ℕ
  | [] => 0
  | f :: fs => (if timeFollows previous f.time then 1 else 0) + countAcceptable f.time fs

def numbered (fs : List (DecodedFrame Float π)) : List (Frame Float π) :=
  fs.mapIdx fun i f => ⟨i, f.time, f.image⟩

@[simp] theorem timeOfLast_append_singleton (previous : Float)
    (fs : List (DecodedFrame Float π)) (f : DecodedFrame Float π) :
    timeOfLast previous (fs ++ [f]) = f.time := by
  simp [timeOfLast]

theorem countAcceptable_append_singleton (previous : Float) (fs : List (DecodedFrame Float π))
    (f : DecodedFrame Float π) : countAcceptable previous (fs ++ [f]) =
      countAcceptable previous fs + if timeFollows (timeOfLast previous fs) f.time then 1
        else 0 := by
  induction fs generalizing previous with
  | nil => exact Nat.add_comm _ _
  | cons g fs ih =>
      rw [List.cons_append, countAcceptable, countAcceptable, ih, Nat.add_assoc]
      rfl

@[simp] theorem numbered_append_singleton (fs : List (DecodedFrame Float π))
    (f : DecodedFrame Float π) :
    numbered (fs ++ [f]) = numbered fs ++ [⟨fs.length, f.time, f.image⟩] := by
  simp [numbered, List.mapIdx_append]

@[simp] theorem length_numbered (fs : List (DecodedFrame Float π)) :
    (numbered fs).length = fs.length := by
  simp [numbered]

@[simp] theorem numbered_eq_nil_iff {fs : List (DecodedFrame Float π)} :
    numbered fs = [] ↔ fs = [] := by
  simp [numbered]

/-- Where times do not fall, numbered frames are in order by number and by time. -/
theorem pairwise_numbered {fs : List (DecodedFrame Float π)}
    (h : fs.Pairwise fun f g => f.time ≤ g.time) :
    (numbered fs).Pairwise fun f g => f.number < g.number ∧ f.time ≤ g.time := by
  refine List.pairwise_iff_getElem.2 fun i j hi hj hij => ?_
  rw [length_numbered] at hi hj
  simp only [numbered, List.getElem_mapIdx]
  exact ⟨hij, List.pairwise_iff_getElem.1 h i j hi hj hij⟩

theorem getElem?_number_of_mem_numbered {fs : List (DecodedFrame Float π)} {f : Frame Float π}
    (hf : f ∈ numbered fs) : fs[f.number]? = some ⟨f.image, f.time⟩ := by
  obtain ⟨i, hi, rfl⟩ := List.mem_mapIdx.1 hf
  exact List.getElem?_eq_getElem hi

theorem timeInRange_zero : Feature.timeInRange 0 = true := by decide +kernel

theorem not_isNaN_of_timeInRange {time : Float} (h : Feature.timeInRange time = true) :
    time.isNaN = false :=
  isNaN_eq_false (of_decide_eq_true h).1

theorem nonneg_of_timeInRange {time : Float} (h : Feature.timeInRange time = true) :
    0 ≤ time :=
  (not_lt_iff_le (not_isNaN_of_timeInRange h) (not_isNaN_of_timeInRange timeInRange_zero)).1
    (of_decide_eq_true h).2

theorem timeFollows_iff {previous time : Float}
    (hprevious : Feature.timeInRange previous = true) :
    timeFollows previous time = true ↔ Feature.timeInRange time = true ∧ previous ≤ time := by
  rw [timeFollows, decide_eq_true_eq]
  refine and_congr_right fun h => ?_
  exact not_lt_iff_le (not_isNaN_of_timeInRange h) (not_isNaN_of_timeInRange hprevious)

/-- What a sampler remembers of the frames decoded so far: their number, the time of the last
one, and the time of the first one once there is one. All of them have acceptable times. -/
structure FramesSeen (fs : List (DecodedFrame Float π)) (count : ℕ) (last : Float)
    (origin : Option Float) :
    Prop where
  count_eq : count = fs.length
  last_eq : last = timeOfLast 0 fs
  acceptable : countAcceptable 0 fs = fs.length
  times : ∀ f ∈ fs, Feature.timeInRange f.time = true ∧ f.time ≤ last
  rising : fs.Pairwise fun f g => f.time ≤ g.time
  last_inRange : Feature.timeInRange last = true
  origin_iff : origin = none ↔ fs = []

theorem framesSeen_nil : FramesSeen ([] : List (DecodedFrame Float π)) 0 0 none where
  count_eq := rfl
  last_eq := rfl
  acceptable := rfl
  times f hf := by cases hf
  rising := List.Pairwise.nil
  last_inRange := timeInRange_zero
  origin_iff := ⟨fun _ => rfl, fun _ => rfl⟩

theorem FramesSeen.append {fs : List (DecodedFrame Float π)} {count : ℕ} {last : Float}
    {origin : Option Float} (h : FramesSeen fs count last origin) {f : DecodedFrame Float π}
    (hf : timeFollows last f.time = true) {origin' : Option Float} (horigin : origin' ≠ none) :
    FramesSeen (fs ++ [f]) (count + 1) f.time origin' := by
  obtain ⟨hrange, hle⟩ := (timeFollows_iff h.last_inRange).1 hf
  have hbefore : ∀ g ∈ fs, Feature.timeInRange g.time = true ∧ g.time ≤ f.time := fun g hg =>
    ⟨(h.times g hg).1, le_of_le_of_le (h.times g hg).2 hle⟩
  have hself : f.time ≤ f.time :=
    (le_iff (not_isNaN_of_timeInRange hrange) (not_isNaN_of_timeInRange hrange)).2 le_rfl
  refine ⟨?_, ?_, ?_, ?_, ?_, hrange, by simp [horigin]⟩
  · rw [h.count_eq, List.length_append, List.length_singleton]
  · rw [timeOfLast_append_singleton]
  · rw [countAcceptable_append_singleton, ← h.last_eq, h.acceptable, if_pos hf,
      List.length_append, List.length_singleton]
  · intro g hg
    rcases List.mem_append.1 hg with hg | hg
    · exact hbefore g hg
    · rw [List.mem_singleton.1 hg]
      exact ⟨hrange, hself⟩
  · refine List.pairwise_append.2 ⟨h.rising, List.pairwise_singleton _ _,
      fun g hg g' hg' => ?_⟩
    rw [List.mem_singleton.1 hg']
    exact (hbefore g hg).2

/-- Frames taken from decoded frames: some of them, in order and numbered, the first
one among them. -/
structure Chosen (fs : List (DecodedFrame Float π)) (taken : List (Frame Float π)) : Prop where
  sublist : taken.Sublist (numbered fs)
  head_eq : taken.head? = (numbered fs).head?

theorem Chosen.skip {fs : List (DecodedFrame Float π)} {taken : List (Frame Float π)}
    (h : Chosen fs taken) (hne : fs ≠ []) (f : DecodedFrame Float π) :
    Chosen (fs ++ [f]) taken where
  sublist := by
    rw [numbered_append_singleton]
    exact h.sublist.trans (List.sublist_append_left _ _)
  head_eq := by
    have hne' : numbered fs ≠ [] := fun heq => hne (numbered_eq_nil_iff.1 heq)
    rw [numbered_append_singleton, List.head?_append_of_ne_nil _ hne', h.head_eq]

theorem Chosen.take {fs : List (DecodedFrame Float π)} {taken : List (Frame Float π)}
    (h : Chosen fs taken) (f : DecodedFrame Float π) :
    Chosen (fs ++ [f]) (taken ++ [⟨fs.length, f.time, f.image⟩]) where
  sublist := by
    rw [numbered_append_singleton]
    exact h.sublist.append_right _
  head_eq := by
    rw [numbered_append_singleton, List.head?_append, List.head?_append, h.head_eq]

theorem Cadence.origin_offer_ne_none (interval : Float) (c : Cadence Float) (time : Float) :
    (c.offer interval time).2.origin ≠ none := by
  unfold offer
  split
  · simp
  · rename_i origin horigin
    split
    · simp [horigin]
    · split
      · simp [horigin]
      · simp

theorem Cadence.origin_ne_none_of_not_taken {interval : Float} {c : Cadence Float}
    {time : Float} (h : (c.offer interval time).1 = false) : c.origin ≠ none := by
  intro hnone
  simp [offer, hnone] at h

end VideoFingerprint
