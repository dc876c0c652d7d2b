import VideoFingerprint.Proofs.Fingerprint.Order
import VideoFingerprint.Proofs.Number.Bits
import VideoFingerprint.Proofs.Outcome
import VideoFingerprint.Proofs.Sorting

/-!
Which lists of features are fingerprints, and what is said of the others. Every feature has to
lie in its ranges, and any feature has to come before any later one, though only neighbours are
compared. The fault of a list is the first one in it: faults of range anywhere are reported
before faults of order. Features in any order make a fingerprint when they do so in the order
of their frame numbers, whatever the order in which they arrive.
-/

namespace VideoFingerprint

open Binary64 Outcome

namespace Feature

/-- A feature whose quality and time lie in their ranges, which leaves out values that
are no numbers. -/
structure InRange (f : Feature) : Prop where
  quality : 0 ≤ f.quality ∧ f.quality ≤ 100
  time : f.time.isFinite = true ∧ 0 ≤ f.time

/-- A feature that may come anywhere before another one. -/
def Before (f g : Feature) : Prop := f.frame < g.frame ∧ f.time ≤ g.time

variable {f g : Feature} {index : Nat} {fault : SequenceFault}

theorem inRange_quality_iff :
    Quality.inRange f.quality = true ↔ 0 ≤ f.quality ∧ f.quality ≤ 100 :=
  decide_eq_true_iff

theorem timeInRange_iff_nonneg :
    timeInRange f.time = true ↔ f.time.isFinite = true ∧ 0 ≤ f.time := by
  rw [timeInRange, decide_eq_true_iff]
  exact and_congr_right fun hfinite => not_lt_iff_le (isNaN_eq_false hfinite) (by decide)

theorem inRange_iff : f.InRange ↔ Quality.inRange f.quality = true ∧
    timeInRange f.time = true := by
  rw [inRange_quality_iff, timeInRange_iff_nonneg]
  exact ⟨fun h => ⟨h.quality, h.time⟩, fun h => ⟨h.1, h.2⟩⟩

theorem InRange.not_isNaN (h : f.InRange) : f.time.isNaN = false := isNaN_eq_false h.time.1

theorem InRange.before_iff_follows (hf : f.InRange) (hg : g.InRange) :
    f.Before g ↔ f.Follows g :=
  and_congr_right fun _ => (not_lt_iff_le hg.not_isNaN hf.not_isNaN).symm

instance : IsTrans Feature Before where
  trans _ _ _ hfg hgh := ⟨hfg.1.trans hgh.1, le_of_le_of_le hfg.2 hgh.2⟩

/-! ### The fault of one feature -/

theorem rangeFault?_eq_some_iff : f.rangeFault? index = some fault ↔
    (¬ (0 ≤ f.quality ∧ f.quality ≤ 100) ∧ fault = .qualityRange index f.quality) ∨
      ((0 ≤ f.quality ∧ f.quality ≤ 100) ∧ ¬ (f.time.isFinite = true ∧ 0 ≤ f.time) ∧
        fault = .timeRange index f.time) := by
  rw [← inRange_quality_iff, ← timeInRange_iff_nonneg]
  cases hquality : Quality.inRange f.quality <;> cases htime : timeInRange f.time <;>
    simp [rangeFault?, hquality, htime, @eq_comm _ fault]

theorem orderFault?_eq_some_iff : g.orderFault? index f = some fault ↔
    (g.frame ≤ f.frame ∧ fault = .frameOrder index f.frame g.frame) ∨
      (f.frame < g.frame ∧ g.time < f.time ∧ fault = .timeOrder index f.time g.time) := by
  by_cases hframe : g.frame ≤ f.frame
  · simp [orderFault?, hframe, Nat.not_lt.2 hframe, @eq_comm _ fault]
  · by_cases htime : g.time < f.time <;>
      simp [orderFault?, hframe, Nat.not_le.1 hframe, htime, @eq_comm _ fault]

end Feature

namespace Fingerprint

variable {fs gs : List Feature} {interval duration : Float} {fault : SequenceFault}

/-! ### Valid lists -/

theorem isChain_before_iff_follows (h : ∀ f ∈ fs, f.InRange) :
    fs.IsChain Feature.Before ↔ fs.IsChain Feature.Follows :=
  ⟨fun hchain => hchain.imp_of_mem_imp fun _ _ hf hg =>
    ((h _ hf).before_iff_follows (h _ hg)).1,
    fun hchain => hchain.imp_of_mem_imp fun _ _ hf hg =>
      ((h _ hf).before_iff_follows (h _ hg)).2⟩

/-- Neighbours in order are all that it takes. -/
theorem firstFault?_eq_none_iff_before :
    firstFault? fs = none ↔ (∀ f ∈ fs, f.InRange) ∧ fs.Pairwise Feature.Before := by
  rw [firstFault?_eq_none_iff]
  simp only [← Feature.inRange_iff]
  refine and_congr_right fun hrange => ?_
  rw [← isChain_before_iff_follows hrange, List.isChain_iff_pairwise]

/-! ### The first fault -/

/-- What is to be said of a list of features: its first feature out of range, or if there is
none, its first feature that does not come after its neighbour. -/
inductive FirstFault : List Feature → SequenceFault → Prop
  | quality (before after : List Feature) (f : Feature) (hbefore : ∀ x ∈ before, x.InRange)
      (hquality : ¬ (0 ≤ f.quality ∧ f.quality ≤ 100)) :
      FirstFault (before ++ f :: after) (.qualityRange before.length f.quality)
  | time (before after : List Feature) (f : Feature) (hbefore : ∀ x ∈ before, x.InRange)
      (hquality : 0 ≤ f.quality ∧ f.quality ≤ 100)
        (htime : ¬ (f.time.isFinite = true ∧ 0 ≤ f.time)) :
      FirstFault (before ++ f :: after) (.timeRange before.length f.time)
  | frameOrder (before after : List Feature) (f g : Feature)
    (hrange : ∀ x ∈ before ++ f :: g :: after, x.InRange)
      (hbefore : (before ++ [f]).IsChain Feature.Before) (hframe : g.frame ≤ f.frame) :
      FirstFault (before ++ f :: g :: after) (.frameOrder (before.length + 1) f.frame g.frame)
  | timeOrder (before after : List Feature) (f g : Feature)
    (hrange : ∀ x ∈ before ++ f :: g :: after, x.InRange)
      (hbefore : (before ++ [f]).IsChain Feature.Before) (hframe : f.frame < g.frame)
        (htime : g.time < f.time) :
      FirstFault (before ++ f :: g :: after) (.timeOrder (before.length + 1) f.time g.time)

theorem rangeFault?_eq_some_iff {index : Nat} : rangeFault? index fs = some fault ↔
    ∃ before f after, fs = before ++ f :: after ∧ (∀ x ∈ before, x.InRange) ∧
      f.rangeFault? (index + before.length) = some fault := by
  induction fs generalizing index with
  | nil => simp [rangeFault?]
  | cons f fs ih =>
      have hrange : f.rangeFault? index = none ↔ f.InRange := by
        rw [Feature.rangeFault?_eq_none_iff, Feature.inRange_iff]
      rw [rangeFault?, Option.or_eq_some_iff, ih]
      constructor
      · rintro (hf | ⟨hf, before, g, after, rfl, hbefore, hg⟩)
        · exact ⟨[], f, fs, rfl, by simp, hf⟩
        · refine ⟨f :: before, g, after, rfl,
            List.forall_mem_cons.2 ⟨hrange.1 hf, hbefore⟩, ?_⟩
          rwa [List.length_cons, Nat.add_comm before.length, ← Nat.add_assoc]
      · rintro ⟨before, g, after, heq, hbefore, hg⟩
        cases before with
        | nil =>
            obtain ⟨rfl, -⟩ := List.cons_eq_cons.1 heq
            exact .inl hg
        | cons x before =>
            obtain ⟨rfl, rfl⟩ := List.cons_eq_cons.1 heq
            obtain ⟨hf, hbefore⟩ := List.forall_mem_cons.1 hbefore
            refine .inr ⟨hrange.2 hf, before, g, after, rfl, hbefore, ?_⟩
            rwa [List.length_cons, Nat.add_comm before.length, ← Nat.add_assoc] at hg

theorem isChain_cons_append_singleton {previous f g : Feature} {before rest : List Feature}
    (h : f :: fs = before ++ g :: rest) :
    (previous :: (before ++ [g])).IsChain Feature.Follows ↔
      previous.Follows f ∧ (before ++ [g]).IsChain Feature.Follows := by
  have hhead : (before ++ [g]).head? = some f := by
    have hfirst := congrArg List.head? h
    rw [List.head?_cons, List.head?_append, List.head?_cons] at hfirst
    rw [List.head?_append, hfirst, List.head?_cons]
  rw [List.isChain_cons, hhead]
  simp

theorem orderFaultAfter?_eq_some_iff {index : Nat} {previous : Feature} :
    orderFaultAfter? index previous fs = some fault ↔
      ∃ before f g after, previous :: fs = before ++ f :: g :: after ∧
        (before ++ [f]).IsChain Feature.Follows ∧
        g.orderFault? (index + before.length) f = some fault := by
  induction fs generalizing index previous with
  | nil =>
      refine iff_of_false (by simp [orderFaultAfter?]) ?_
      rintro ⟨before, f, g, after, heq, -⟩
      have hlength := congrArg List.length heq
      simp only [List.length_append, List.length_cons, List.length_nil] at hlength
      omega
  | cons f fs ih =>
      have hfollows : f.orderFault? index previous = none ↔ previous.Follows f :=
        Feature.orderFault?_eq_none_iff
      rw [orderFaultAfter?, Option.or_eq_some_iff, hfollows, ih]
      constructor
      · rintro (hf | ⟨hf, before, g, h, after, heq, hchain, hh⟩)
        · exact ⟨[], previous, f, fs, rfl, List.isChain_singleton previous, hf⟩
        · refine ⟨previous :: before, g, h, after, by rw [heq, List.cons_append],
            (isChain_cons_append_singleton heq).2 ⟨hf, hchain⟩, ?_⟩
          rwa [List.length_cons, Nat.add_comm before.length, ← Nat.add_assoc]
      · rintro ⟨before, g, h, after, heq, hchain, hh⟩
        cases before with
        | nil =>
            simp only [List.nil_append, List.cons.injEq] at heq
            obtain ⟨rfl, rfl, -⟩ := heq
            exact .inl hh
        | cons x before =>
            obtain ⟨rfl, htail⟩ := List.cons_eq_cons.1 heq
            obtain ⟨hf, hrest⟩ := (isChain_cons_append_singleton htail).1 hchain
            refine .inr ⟨hf, before, g, h, after, htail, hrest, ?_⟩
            rwa [List.length_cons, Nat.add_comm before.length, ← Nat.add_assoc] at hh

theorem orderFault?_eq_some_iff : orderFault? fs = some fault ↔
    ∃ before f g after, fs = before ++ f :: g :: after ∧
      (before ++ [f]).IsChain Feature.Follows ∧
      g.orderFault? (before.length + 1) f = some fault := by
  cases fs with
  | nil => simp [orderFault?]
  | cons f fs =>
      rw [orderFault?, orderFaultAfter?_eq_some_iff]
      simp only [Nat.add_comm 1]

/-- The fault that is found is the first one. -/
theorem firstFault?_eq_some_iff : firstFault? fs = some fault ↔ FirstFault fs fault := by
  have hchain {before after : List Feature} {f g : Feature}
      (hrange : ∀ x ∈ before ++ f :: g :: after, x.InRange) :
      (before ++ [f]).IsChain Feature.Before ↔ (before ++ [f]).IsChain Feature.Follows := by
    refine isChain_before_iff_follows fun x hx => hrange x ?_
    rw [List.append_cons]
    exact List.mem_append_left _ hx
  rw [firstFault?, Option.or_eq_some_iff, rangeFault?_eq_none_iff, rangeFault?_eq_some_iff,
    orderFault?_eq_some_iff]
  simp only [← Feature.inRange_iff, Nat.zero_add, Feature.rangeFault?_eq_some_iff,
    Feature.orderFault?_eq_some_iff]
  constructor
  · rintro (⟨before, f, after, rfl, hbefore, ⟨hquality, rfl⟩ | ⟨hquality, htime, rfl⟩⟩ |
      ⟨hrange, before, f, g, after, rfl, hfollows, ⟨hframe, rfl⟩ | ⟨hframe, htime, rfl⟩⟩)
    · exact .quality before after f hbefore hquality
    · exact .time before after f hbefore hquality htime
    · exact .frameOrder before after f g hrange ((hchain hrange).2 hfollows) hframe
    · exact .timeOrder before after f g hrange ((hchain hrange).2 hfollows) hframe htime
  · intro h
    cases h with
    | quality before after f hbefore hquality =>
        exact .inl ⟨before, f, after, rfl, hbefore, .inl ⟨hquality, rfl⟩⟩
    | time before after f hbefore hquality htime =>
        exact .inl ⟨before, f, after, rfl, hbefore, .inr ⟨hquality, htime, rfl⟩⟩
    | frameOrder before after f g hrange hbefore hframe =>
        exact .inr ⟨hrange, before, f, g, after, rfl, (hchain hrange).1 hbefore,
          .inl ⟨hframe, rfl⟩⟩
    | timeOrder before after f g hrange hbefore hframe htime =>
        exact .inr ⟨hrange, before, f, g, after, rfl, (hchain hrange).1 hbefore,
          .inr ⟨hframe, htime, rfl⟩⟩

/-! ### Any order of arrival -/

theorem exists_ofFeatures_iff :
    (∃ p, ofFeatures fs interval duration = .ok p) ↔ firstFault? fs = none := by
  constructor
  · rintro ⟨p, hp⟩
    obtain ⟨hfeatures, -⟩ := ofFeatures_eq_ok_iff.1 hp
    rw [← hfeatures, p.valid]
  · intro h
    exact ⟨⟨fs, interval, duration, h⟩, ofFeatures_eq_ok_iff.2 ⟨rfl, rfl, rfl⟩⟩

/-- A fingerprint of unordered features has them in the order of their frame numbers. -/
theorem features_of_ofUnordered {p : Fingerprint}
    (h : ofUnordered fs interval duration = .ok p) :
    p.features.Perm fs ∧ (p.features.Pairwise fun f g => f.frame < g.frame) ∧
    p.interval = interval ∧
      p.duration = duration := by
  obtain ⟨hfeatures, hinterval, hduration⟩ := ofFeatures_eq_ok_iff.1 h
  exact ⟨hfeatures ▸ List.mergeSort_perm fs _, p.pairwise_frame, hinterval, hduration⟩

theorem ofUnordered_eq_ok_of_perm (hperm : fs.Perm gs) {p : Fingerprint}
    (h : ofUnordered fs interval duration = .ok p) :
    ofUnordered gs interval duration = .ok p := by
  obtain ⟨hsame, hrising, hinterval, hduration⟩ := features_of_ofUnordered h
  rw [ofUnordered, mergeSort_eq_of_perm (hperm.symm.trans hsame.symm) hrising]
  exact ofFeatures_eq_ok_iff.2 ⟨rfl, hinterval, hduration⟩

theorem toOption_ofUnordered_perm (hperm : fs.Perm gs) :
    (ofUnordered fs interval duration).toOption =
      (ofUnordered gs interval duration).toOption := by
  refine Option.ext fun p => ?_
  rw [toOption_eq_some_iff, toOption_eq_some_iff]
  exact ⟨ofUnordered_eq_ok_of_perm hperm, ofUnordered_eq_ok_of_perm hperm.symm⟩

/-- Where times rise with the frame numbers, they do so between any two features. -/
theorem time_le_of_pairwise (h : fs.Pairwise Feature.Before) {f g : Feature} (hf : f ∈ fs)
    (hg : g ∈ fs) (hframe : f.frame < g.frame) : f.time ≤ g.time := by
  have hne : f ≠ g := fun heq => hframe.ne (congrArg Feature.frame heq)
  rcases rel_or_rel_of_pairwise h hf hg hne with hbefore | hafter
  · exact hbefore.2
  · exact absurd hafter.1 hframe.asymm

theorem exists_ofUnordered_iff : (∃ p, ofUnordered fs interval duration = .ok p) ↔
    (fs.map Feature.frame).Nodup ∧ (∀ f ∈ fs, f.InRange) ∧
      ∀ f ∈ fs, ∀ g ∈ fs, f.frame < g.frame → f.time ≤ g.time := by
  have hsame := List.mergeSort_perm fs fun a b => a.frame ≤ b.frame
  rw [ofUnordered, exists_ofFeatures_iff, firstFault?_eq_none_iff_before]
  constructor
  · rintro ⟨hrange, hbefore⟩
    refine ⟨(hsame.map Feature.frame).nodup_iff.1 ?_,
      fun f hf => hrange f (hsame.mem_iff.2 hf), ?_⟩
    · exact List.pairwise_map.2 (hbefore.imp fun h => h.1.ne)
    · exact fun f hf g hg =>
        time_le_of_pairwise hbefore (hsame.mem_iff.2 hf) (hsame.mem_iff.2 hg)
  · rintro ⟨hnodup, hrange, htimes⟩
    have hdistinct := List.pairwise_map.1 ((hsame.map Feature.frame).nodup_iff.2 hnodup)
    refine ⟨fun f hf => hrange f (hsame.mem_iff.1 hf), ?_⟩
    refine ((pairwise_mergeSort_key fs).and hdistinct).imp_of_mem fun hf hg hle => ?_
    have hframe := Nat.lt_of_le_of_ne hle.1 hle.2
    exact ⟨hframe, htimes _ (hsame.mem_iff.1 hf) _ (hsame.mem_iff.1 hg) hframe⟩

/-- A fingerprint is built of a list of features exactly when all are in range and each comes
before any later one, and then of that list; otherwise the first fault is reported. Of features
in any order the same is built whatever the order, namely if no two have the same number, all
are in range, and times do not fall where numbers rise. -/
theorem construction :
    (∀ (fs : List Feature) (interval duration : Float),
      ((∃ p, ofFeatures fs interval duration = .ok p) ↔
        (∀ f ∈ fs, f.InRange) ∧ fs.Pairwise Feature.Before) ∧
      ∀ p, ofFeatures fs interval duration = .ok p →
        p.features = fs ∧ p.interval = interval ∧ p.duration = duration) ∧
    (∀ (fs : List Feature) (interval duration : Float) (fault : SequenceFault),
      ofFeatures fs interval duration = .error fault ↔ FirstFault fs fault) ∧
    (∀ (fs gs : List Feature) (interval duration : Float), fs.Perm gs →
      (ofUnordered fs interval duration).toOption =
        (ofUnordered gs interval duration).toOption) ∧
    ∀ (fs : List Feature) (interval duration : Float),
      ((∃ p, ofUnordered fs interval duration = .ok p) ↔
        (fs.map Feature.frame).Nodup ∧ (∀ f ∈ fs, f.InRange) ∧
          ∀ f ∈ fs, ∀ g ∈ fs, f.frame < g.frame → f.time ≤ g.time) ∧
      ∀ p, ofUnordered fs interval duration = .ok p →
        p.features.Perm fs ∧ (p.features.Pairwise fun f g => f.frame < g.frame) ∧
        p.interval = interval ∧ p.duration = duration := by
  refine ⟨fun fs interval duration => ⟨?_, fun p => ofFeatures_eq_ok_iff.1⟩,
    fun fs interval duration fault => ?_,
    fun fs gs interval duration => toOption_ofUnordered_perm, fun fs interval duration => ?_⟩
  · rw [exists_ofFeatures_iff, firstFault?_eq_none_iff_before]
  · rw [ofFeatures_eq_error_iff, firstFault?_eq_some_iff]
  · exact ⟨exists_ofUnordered_iff, fun p => features_of_ofUnordered⟩

theorem construction_of_two_frames :
    let f : Feature := ⟨1, 0.5, ⟨0⟩, 100⟩
    let g : Feature := ⟨3, 1.5, ⟨1⟩, 0⟩
    [g, f].Perm [f, g] ∧
      (ofUnordered [g, f] 1 2).toOption = (ofUnordered [f, g] 1 2).toOption ∧
      (∃ p, ofUnordered [g, f] 1 2 = .ok p ∧ p.features.Perm [g, f] ∧
        p.features.Pairwise fun f g => f.frame < g.frame) ∧
      ofFeatures [g, f] 1 2 = .error (.frameOrder 1 3 1) := by
  intro f g
  obtain ⟨-, hfault, hperm, hunordered⟩ := construction
  have hf : f.InRange := ⟨by decide +kernel, by decide +kernel⟩
  have hg : g.InRange := ⟨by decide +kernel, by decide +kernel⟩
  have hrange : ∀ x ∈ [g, f], x.InRange := by simp [hf, hg]
  have htimes : ∀ x ∈ [g, f], ∀ y ∈ [g, f], x.frame < y.frame → x.time ≤ y.time := by
    decide +kernel
  have hswap : [g, f].Perm [f, g] := List.Perm.swap f g []
  obtain ⟨p, hp⟩ := (hunordered [g, f] 1 2).1.2 ⟨by decide, hrange, htimes⟩
  obtain ⟨hsame, hrising, -⟩ := (hunordered [g, f] 1 2).2 p hp
  refine ⟨hswap, hperm _ _ 1 2 hswap, ⟨p, hp, hsame, hrising⟩, (hfault [g, f] 1 2 _).2 ?_⟩
  exact .frameOrder [] [] g f hrange (List.isChain_singleton g) (by decide)

end Fingerprint

end VideoFingerprint
