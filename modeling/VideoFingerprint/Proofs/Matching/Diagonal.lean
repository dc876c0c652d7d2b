import VideoFingerprint.Proofs.Hash.Distance
import VideoFingerprint.Proofs.Matching.Tolerance

/-!
Copies. Frames with the same hash are tried before all others, and among them those of early
places first, so two videos that start alike are paired frame by frame from their start on,
however often a frame is repeated. A video that is compared with itself is one segment from end
to end.
-/

namespace VideoFingerprint

open Candidate

variable {cfg : MatchConfig} {query reference : List Feature}

/-! ### Accepted candidates -/

theorem eq_of_p_eq {a b : Candidate} (ha : a ∈ acceptedCandidates cfg query reference)
    (hb : b ∈ acceptedCandidates cfg query reference) (h : a.p = b.p) : a = b := by
  by_contra hne
  have := rel_or_rel_of_pairwise (pairwise_acceptedCandidates cfg query reference) ha hb hne
  omega

theorem eq_of_q_eq {a b : Candidate} (ha : a ∈ acceptedCandidates cfg query reference)
    (hb : b ∈ acceptedCandidates cfg query reference) (h : a.q = b.q) : a = b := by
  by_contra hne
  have := rel_or_rel_of_pairwise (pairwise_acceptedCandidates cfg query reference) ha hb hne
  omega

/-- A candidate that is alone in its rank is accepted unless one that was accepted before
is in its way. -/
theorem mem_acceptedCandidates_of_alone {c : Candidate} (hc : c ∈ all cfg query reference)
    (halone : ∀ d ∈ all cfg query reference, d.rank = c.rank → d = c)
    (hfree : ∀ a ∈ acceptedCandidates cfg query reference, a.rank < c.rank →
      ¬ Conflict a.places c.places) :
    c ∈ acceptedCandidates cfg query reference := by
  refine ((isGreedy_acceptedCandidates cfg query reference).mem_iff c hc).2
    ⟨?_, fun d hd hne hrank => ?_⟩
  · rintro ⟨a, ha, hlt, hconflict⟩
    exact hfree a ha hlt hconflict
  · exact absurd (halone d hd hrank) hne

/-! ### Frames with the same hash -/

def Candidate.exact (p q : ℕ) (f g : Feature) : Candidate := ⟨p, q, f, g, 0⟩

theorem exact_mem_all {p q : ℕ} {f g : Feature} (hf : query[p]? = some f)
    (hg : reference[q]? = some g) (hhash : f.hash = g.hash) :
    exact p q f g ∈ all cfg query reference := by
  refine mem_all_iff.2 ⟨hf, hg, ?_, decide_eq_true (Nat.zero_le _)⟩
  exact ((Hash.distance_eq_zero_iff _ _).2 hhash).symm

theorem hash_eq_of_distance_eq_zero {c : Candidate} (hc : c ∈ all cfg query reference)
    (h : c.distance = 0) :
    c.query.hash = c.reference.hash := by
  obtain ⟨-, -, hd, -⟩ := mem_all_iff.1 hc
  exact (Hash.distance_eq_zero_iff _ _).1 (hd.symm.trans h)

/-- Of two candidates at one distance, the one of smaller rank has the earlier places. -/
theorem Candidate.sum_le_of_rank_le {a b : Candidate} (h : a.rank ≤ b.rank)
    (hd : a.distance = b.distance) :
    a.p + a.q ≤ b.p + b.q := by
  rcases Prod.Lex.toLex_le_toLex.1 h with hlt | ⟨-, hrest⟩
  · exact absurd hd (ne_of_lt hlt)
  · rcases Prod.Lex.toLex_le_toLex.1 hrest with hlt | ⟨heq, -⟩
    · exact le_of_lt hlt
    · exact le_of_eq heq

/-! ### Videos that start alike -/

def AlikeUpTo (k : ℕ) (query reference : List Feature) : Prop :=
  ∀ i < k, ∃ f g, query[i]? = some f ∧ reference[i]? = some g ∧ f.hash = g.hash

/-- Where two videos start alike, each pair of frames in the same place is accepted. -/
theorem AlikeUpTo.exact_mem_acceptedCandidates {k : ℕ} (h : AlikeUpTo k query reference)
    (cfg : MatchConfig) {i : ℕ} {f g : Feature} (hi : i < k) (hf : query[i]? = some f)
    (hg : reference[i]? = some g) :
    exact i i f g ∈ acceptedCandidates cfg query reference := by
  induction i using Nat.strong_induction_on generalizing f g with
  | _ i ih =>
      have hhash : f.hash = g.hash := by
        obtain ⟨f', g', hf', hg', hhash⟩ := h i hi
        rwa [Option.some.inj (hf.symm.trans hf'), Option.some.inj (hg.symm.trans hg')]
      have hmem : exact i i f g ∈ all cfg query reference := exact_mem_all hf hg hhash
      have hearlier : ∀ j < i, ∃ c ∈ acceptedCandidates cfg query reference,
          c.places = (j, j) := by
        intro j hj
        obtain ⟨f', g', hf', hg', -⟩ := h j (hj.trans hi)
        exact ⟨exact j j f' g', ih j hj (hj.trans hi) hf' hg', rfl⟩
      refine mem_acceptedCandidates_of_alone hmem (fun d hd hrank => ?_)
        (fun a ha hlt hconflict => ?_)
      · have hplaces : d.places = (exact i i f g).places := by
          rcases places_eq_or_swap hrank with hsame | hswap
          · exact hsame
          · exact hswap
        exact eq_of_places_eq hd hmem hplaces
      · have hdistance : a.distance = 0 := Nat.le_zero.1 (distance_le_of_rank_le hlt.le)
        have hsum : a.p + a.q ≤ i + i := sum_le_of_rank_le hlt.le hdistance
        have happart : a.places ≠ (i, i) := by
          intro hplaces
          have heq := eq_of_places_eq (mem_all_of_mem_acceptedCandidates ha) hmem hplaces
          exact absurd hlt (heq ▸ lt_irrefl _)
        simp only [places, ne_eq, Prod.mk.injEq] at happart
        simp only [Conflict, places, Candidate.exact] at hconflict
        rcases Nat.lt_trichotomy a.p a.q with hbelow | heq | habove
        · obtain ⟨c, hc, hplaces⟩ := hearlier a.p (by omega)
          obtain ⟨hp, hq⟩ := Prod.mk.inj hplaces
          have hac := eq_of_p_eq ha hc hp.symm
          rw [hac] at hbelow
          omega
        · omega
        · obtain ⟨c, hc, hplaces⟩ := hearlier a.q (by omega)
          obtain ⟨hp, hq⟩ := Prod.mk.inj hplaces
          have hac := eq_of_q_eq ha hc hq.symm
          rw [hac] at habove
          omega

/-- The first run of the alignment of two videos that start alike covers what they have
in common there. -/
theorem AlikeUpTo.exists_first_run {k : ℕ} (h : AlikeUpTo k query reference)
    (cfg : MatchConfig) (hpos : 0 < k) :
    ∃ run runs f g, (acceptedCandidates cfg query reference).splitBy follows = run :: runs ∧
      query.head? = some f ∧ reference.head? = some g ∧ run.head? = some (exact 0 0 f g) ∧
      k ≤ run.length := by
  obtain ⟨f, g, hf, hg, -⟩ := h 0 hpos
  have hfirst := h.exact_mem_acceptedCandidates cfg hpos hf hg
  have hrising := pairwise_p_acceptedCandidates cfg query reference
  have hne : acceptedCandidates cfg query reference ≠ [] := List.ne_nil_of_mem hfirst
  have hhead : (acceptedCandidates cfg query reference).head hne = exact 0 0 f g := by
    rcases eq_or_head_lt hrising hfirst hne with heq | hlt
    · exact heq
    · exact absurd hlt (Nat.not_lt_zero _)
  obtain ⟨run, runs, hruns⟩ := List.exists_cons_of_ne_nil (List.splitBy_ne_nil.2 hne)
  have hrun : run ∈ (acceptedCandidates cfg query reference).splitBy follows :=
    hruns ▸ List.mem_cons_self
  have hrunhead : run.head? = some (exact 0 0 f g) := by
    have hflat := List.flatten_splitBy follows (acceptedCandidates cfg query reference)
    rw [hruns, List.flatten_cons] at hflat
    have hcut := congrArg List.head? hflat
    rwa [List.head?_append_of_ne_nil _ (List.ne_nil_of_mem_splitBy hrun),
      List.head?_eq_some_head hne, hhead] at hcut
  have hdiagonal : ∀ i < k, ∃ c ∈ run, c.p = i ∧ c.q = i := by
    intro i hi
    induction i with
    | zero => exact ⟨_, List.mem_of_mem_head? hrunhead, rfl, rfl⟩
    | succ i ih =>
        obtain ⟨c, hc, hp, hq⟩ := ih (Nat.lt_of_succ_lt hi)
        obtain ⟨f', g', hf', hg', -⟩ := h (i + 1) hi
        have hnext := h.exact_mem_acceptedCandidates cfg hi hf' hg'
        have hfollows : c.follows (exact (i + 1) (i + 1) f' g') = true :=
          decide_eq_true ⟨congrArg (· + 1) hp.symm, congrArg (· + 1) hq.symm⟩
        exact ⟨_, mem_run_of_follows hrun hc hnext hfollows, rfl, rfl⟩
  have hsubset : List.range k ⊆ run.map Candidate.p := by
    intro i hi
    obtain ⟨c, hc, hp, -⟩ := hdiagonal i (List.mem_range.1 hi)
    exact List.mem_map.2 ⟨c, hc, hp⟩
  have hlength := (List.subperm_of_subset List.nodup_range hsubset).length_le
  rw [List.length_range, List.length_map] at hlength
  exact ⟨run, runs, f, g, hruns, by rwa [List.head?_eq_getElem?],
    by rwa [List.head?_eq_getElem?], hrunhead, hlength⟩

/-! ### Frames in step -/

def Candidate.inStep : (p q : ℕ) → List Feature → List Feature → List Candidate
  | p, q, f :: fs, g :: gs => exact p q f g :: inStep (p + 1) (q + 1) fs gs
  | _, _, _, _ => []

theorem mem_inStep_iff {c : Candidate} {p q : ℕ} {fs gs : List Feature} :
    c ∈ inStep p q fs gs ↔ ∃ i f g, fs[i]? = some f ∧ gs[i]? = some g ∧
      c = exact (p + i) (q + i) f g := by
  induction fs generalizing p q gs with
  | nil => simp [inStep]
  | cons f fs ih =>
      cases gs with
      | nil => simp [inStep]
      | cons g gs =>
          rw [inStep, List.mem_cons, ih]
          constructor
          · rintro (rfl | ⟨i, f', g', hf, hg, rfl⟩)
            · exact ⟨0, f, g, rfl, rfl, rfl⟩
            · refine ⟨i + 1, f', g', by simpa using hf, by simpa using hg, ?_⟩
              rw [Nat.add_right_comm, Nat.add_right_comm q, ← Nat.add_assoc, ← Nat.add_assoc]
          · rintro ⟨i, f', g', hf, hg, rfl⟩
            cases i with
            | zero =>
                left
                rw [← Option.some.inj hf, ← Option.some.inj hg]
                rfl
            | succ i =>
                refine Or.inr ⟨i, f', g', by simpa using hf, by simpa using hg, ?_⟩
                rw [Nat.add_right_comm, Nat.add_right_comm q, ← Nat.add_assoc, ← Nat.add_assoc]

theorem isChain_follows_inStep (p q : ℕ) (fs gs : List Feature) :
    (inStep p q fs gs).IsChain fun a b => a.follows b = true := by
  induction fs generalizing p q gs with
  | nil => exact List.IsChain.nil
  | cons f fs ih =>
      cases gs with
      | nil => exact List.IsChain.nil
      | cons g gs =>
          have hrest := ih (p + 1) (q + 1) gs
          cases fs with
          | nil => exact List.IsChain.singleton _
          | cons f' fs =>
              cases gs with
              | nil => exact List.IsChain.singleton _
              | cons g' gs => exact List.isChain_cons_cons.2 ⟨decide_eq_true ⟨rfl, rfl⟩, hrest⟩

theorem pairwise_p_inStep (p q : ℕ) (fs gs : List Feature) :
    (inStep p q fs gs).Pairwise fun a b => a.p < b.p := by
  have hchain : (inStep p q fs gs).IsChain fun a b => a.p < b.p := by
    refine (isChain_follows_inStep p q fs gs).imp fun a b hab => ?_
    have hnext : b.p = a.p + 1 ∧ b.q = a.q + 1 := of_decide_eq_true hab
    omega
  have : IsTrans Candidate fun a b => a.p < b.p := ⟨fun _ _ _ => Nat.lt_trans⟩
  exact List.isChain_iff_pairwise.1 hchain

def MatchedPair.exact (f g : Feature) : MatchedPair := ⟨f, g, 0⟩

theorem map_toPair_inStep (p q : ℕ) (fs gs : List Feature) :
    (inStep p q fs gs).map toPair = List.zipWith MatchedPair.exact fs gs := by
  induction fs generalizing p q gs with
  | nil => rfl
  | cons f fs ih =>
      cases gs with
      | nil => rfl
      | cons g gs =>
          rw [inStep, List.map_cons, ih, List.zipWith_cons_cons]
          rfl

/-- When every frame of the query is paired with the frame of its turn, nothing
else is accepted. -/
theorem acceptedCandidates_eq_inStep {shift : ℕ} {gs : List Feature}
    (hlength : gs.length = query.length) (h : ∀ i f g, query[i]? = some f → gs[i]? = some g →
      exact i (shift + i) f g ∈ acceptedCandidates cfg query reference) :
    acceptedCandidates cfg query reference = inStep 0 shift query gs := by
  have : Std.Irrefl fun a b : Candidate => a.p < b.p := ⟨fun a => Nat.lt_irrefl a.p⟩
  have : Std.Antisymm fun a b : Candidate => a.p < b.p :=
    ⟨fun a b hab hba => absurd hab hba.asymm⟩
  refine (pairwise_p_acceptedCandidates cfg query reference).eq_of_mem_iff
    (pairwise_p_inStep 0 shift query gs) fun {c} => ?_
  rw [mem_inStep_iff]
  constructor
  · intro hc
    obtain ⟨hf, -⟩ := mem_all_iff.1 (mem_all_of_mem_acceptedCandidates hc)
    obtain ⟨hlt, -⟩ := List.getElem?_eq_some_iff.1 hf
    have hg : gs[c.p]? = some gs[c.p] := List.getElem?_eq_getElem (hlength ▸ hlt)
    refine ⟨c.p, c.query, gs[c.p], hf, hg, ?_⟩
    rw [Nat.zero_add]
    exact eq_of_p_eq hc (h c.p c.query gs[c.p] hf hg) rfl
  · rintro ⟨i, f, g, hf, hg, rfl⟩
    rw [Nat.zero_add]
    exact h i f g hf hg

/-- The segment of pairs in step reaches from the first frames to the last ones. -/
theorem MatchedSegment.ofPairs?_zipWith_exact {fs gs : List Feature}
    (hlength : gs.length = fs.length) (hpos : 0 < fs.length) :
    ∃ first last first' last', fs.head? = some first ∧ fs.getLast? = some last ∧
      gs.head? = some first' ∧
      gs.getLast? = some last' ∧ ofPairs? (List.zipWith MatchedPair.exact fs gs) =
        some ⟨fs.length, .between first last, .between first' last'⟩ := by
  have hfs : fs ≠ [] := List.ne_nil_of_length_pos hpos
  have hgs : gs ≠ [] := List.ne_nil_of_length_pos (hlength ▸ hpos)
  refine ⟨fs.head hfs, fs.getLast hfs, gs.head hgs, gs.getLast hgs,
    List.head?_eq_some_head hfs,
    List.getLast?_eq_some_getLast hfs, List.head?_eq_some_head hgs,
    List.getLast?_eq_some_getLast hgs, ?_⟩
  have hpairs : (List.zipWith MatchedPair.exact fs gs).length = fs.length := by
    rw [List.length_zipWith, hlength, Nat.min_self]
  refine ofPairs?_eq_some_iff.2 ⟨MatchedPair.exact (fs.head hfs) (gs.head hgs),
    MatchedPair.exact (fs.getLast hfs) (gs.getLast hgs), ?_, ?_, ?_⟩
  · rw [List.head?_zipWith, List.head?_eq_some_head hfs, List.head?_eq_some_head hgs]
  · have hlast : fs[fs.length - 1]? = some (fs.getLast hfs) := by
      rw [← List.getLast?_eq_getElem?, List.getLast?_eq_some_getLast hfs]
    have hlast' : gs[fs.length - 1]? = some (gs.getLast hgs) := by
      rw [← hlength, ← List.getLast?_eq_getElem?, List.getLast?_eq_some_getLast hgs]
    rw [List.getLast?_eq_getElem?, hpairs, List.getElem?_zipWith, hlast, hlast']
  · rw [hpairs]
    rfl

theorem Fingerprint.isFinite_time (p : Fingerprint) {f : Feature} (hf : f ∈ p.features) :
    f.time.isFinite = true := by
  obtain ⟨hrange, -⟩ := Option.or_eq_none_iff.1 p.valid
  exact (of_decide_eq_true (rangeFault?_eq_none_iff.1 hrange f hf).2).1

theorem MatchConfig.one_le_minRun (cfg : MatchConfig) : 1 ≤ cfg.minRun :=
  (fault?_eq_none_iff.1 cfg.valid).2.2

/-- When every frame of the query is paired with the frame of its turn, there is one run. -/
theorem matchedRuns_of_inStep {shift : ℕ} {gs : List Feature}
    (hlength : gs.length = query.length) (hlong : cfg.minRun ≤ query.length)
    (h : ∀ i f g, query[i]? = some f → gs[i]? = some g →
      exact i (shift + i) f g ∈ acceptedCandidates cfg query reference) :
    matchedRuns cfg query reference = [List.zipWith MatchedPair.exact query gs] := by
  have hpairs : (inStep 0 shift query gs).length = query.length := by
    rw [← List.length_map toPair, map_toPair_inStep, List.length_zipWith, hlength,
      Nat.min_self]
  have hne : inStep 0 shift query gs ≠ [] := by
    apply List.ne_nil_of_length_pos
    rw [hpairs]
    exact cfg.one_le_minRun.trans hlong
  have hkept : decide (cfg.minRun ≤ (inStep 0 shift query gs).length) = true := by
    rw [hpairs]
    exact decide_eq_true hlong
  rw [matchedRuns, acceptedCandidates_eq_inStep hlength h,
    List.splitBy_of_isChain hne (isChain_follows_inStep 0 shift query gs),
    List.filter_singleton, hkept]
  exact congrArg (fun run => [run]) (map_toPair_inStep 0 shift query gs)

/-- A query all of whose frames are paired with the frame of their turn is one segment and
covered in full. -/
theorem matchFingerprints_of_inStep (cfg : MatchConfig) (query reference : Fingerprint)
    (shift : ℕ) (gs : List Feature)
    (hlength : gs.length = (query.eligible cfg.minQuality).length)
    (hlong : cfg.minRun ≤ (query.eligible cfg.minQuality).length)
    (h : ∀ i f g, (query.eligible cfg.minQuality)[i]? = some f → gs[i]? = some g →
      exact i (shift + i) f g ∈
        acceptedCandidates cfg (query.eligible cfg.minQuality)
          (reference.eligible cfg.minQuality)) :
    let frames := query.eligible cfg.minQuality
    let r := matchFingerprints cfg query reference
    r.pairs = List.zipWith MatchedPair.exact frames gs ∧
      (∃ first last first' last', frames.head? = some first ∧ frames.getLast? = some last ∧
        gs.head? = some first' ∧ gs.getLast? = some last' ∧
        r.segments = [⟨frames.length, .between first last, .between first' last'⟩]) ∧
      ((∀ f ∈ query.features, f.frame ≤ Text.maxU64) → r.score = 1) ∧
      r.referenceScore = coverage frames.length
        (reference.eligible cfg.minQuality).length := by
  intro frames r
  have hruns := matchedRuns_of_inStep hlength hlong h
  have hpos : 0 < frames.length := cfg.one_le_minRun.trans hlong
  have hcount : (List.zipWith MatchedPair.exact frames gs).length = frames.length := by
    rw [List.length_zipWith, hlength, Nat.min_self]
  obtain ⟨first, last, first', last', hfirst, hlast, hfirst', hlast', hs⟩ :=
    MatchedSegment.ofPairs?_zipWith_exact hlength hpos
  simp only [r, matchFingerprints, MatchResult.ofRuns, hruns, List.flatten_singleton,
    List.filterMap_cons, hs, List.filterMap_nil, frames, hcount, true_and, and_true]
  refine ⟨⟨first, last, first', last', hfirst, hlast, hfirst', hlast', rfl⟩, fun hwords => ?_⟩
  exact coverage_self hpos (query.length_eligible_le hwords _)

/-! ### Copies -/

/-- The first segment of two videos that start alike starts with their first frames. -/
theorem AlikeUpTo.exists_first_segment {k : ℕ} (h : AlikeUpTo k query reference)
    (hlong : cfg.minRun ≤ k) :
    ∃ s f g, ((matchedRuns cfg query reference).filterMap MatchedSegment.ofPairs?).head? =
      some s ∧
      query.head? = some f ∧ reference.head? = some g ∧ s.query.firstFrame = f.frame ∧
      s.reference.firstFrame = g.frame ∧ k ≤ s.length := by
  obtain ⟨run, runs, f, g, hruns, hf, hg, hhead, hlength⟩ :=
    h.exists_first_run cfg (cfg.one_le_minRun.trans hlong)
  have hkept : decide (cfg.minRun ≤ run.length) = true := decide_eq_true (hlong.trans hlength)
  have hfirst : (run.map toPair).head? = some (MatchedPair.exact f g) := by
    rw [List.head?_map, hhead]
    rfl
  obtain ⟨s, hs⟩ := MatchedSegment.exists_ofPairs? (List.mem_of_mem_head? hfirst)
  obtain ⟨first, last, hfirst', -, rfl⟩ := MatchedSegment.ofPairs?_eq_some_iff.1 hs
  obtain rfl : MatchedPair.exact f g = first := Option.some.inj (hfirst.symm.trans hfirst')
  refine ⟨⟨(run.map toPair).length, .between f last.query, .between g last.reference⟩, f, g,
    ?_, hf, hg, rfl, rfl, ?_⟩
  · rw [matchedRuns, hruns, List.filter_cons, if_pos hkept, List.map_cons,
      List.filterMap_cons_some hs, List.head?_cons]
    rfl
  · rwa [List.length_map]

/-- Copies align from the start. Where two videos start alike, each frame is paired with the
frame of its place, and when this is long enough to count, the first segment starts with the
first frames and covers it. A video compared with itself is one segment, in which each frame is
paired with itself. -/
theorem matchFingerprints_copy (cfg : MatchConfig) :
    (∀ (query reference : Fingerprint) (k : ℕ),
      let queryFrames := query.eligible cfg.minQuality
      let referenceFrames := reference.eligible cfg.minQuality
      AlikeUpTo k queryFrames referenceFrames →
        (∀ i < k, ∃ f g, queryFrames[i]? = some f ∧ referenceFrames[i]? = some g ∧
          (⟨i, i, f, g, 0⟩ : Candidate) ∈ acceptedCandidates cfg queryFrames referenceFrames) ∧
        (max 1 cfg.minRun ≤ k → ∃ s f g,
          (matchFingerprints cfg query reference).segments.head? = some s ∧
          queryFrames.head? = some f ∧ referenceFrames.head? = some g ∧
          s.query.firstFrame = f.frame ∧ s.reference.firstFrame = g.frame ∧ k ≤ s.length)) ∧
    ∀ p : Fingerprint,
      let frames := p.eligible cfg.minQuality
      let r := matchFingerprints cfg p p
      max 1 cfg.minRun ≤ frames.length →
        r.pairs = frames.map (fun f => ⟨f, f, 0⟩) ∧
        (∃ s first last, r.segments = [s] ∧ frames.head? = some first ∧
          frames.getLast? = some last ∧
          s = ⟨frames.length, .between first last, .between first last⟩ ∧ s.offset = 0) ∧
        ((∀ f ∈ p.features, f.frame ≤ Text.maxU64) → r.score = 1 ∧ r.referenceScore = 1) := by
  constructor
  · intro query reference k queryFrames referenceFrames halike
    refine ⟨fun i hi => ?_, fun hlong => ?_⟩
    · obtain ⟨f, g, hf, hg, -⟩ := halike i hi
      exact ⟨f, g, hf, hg, halike.exact_mem_acceptedCandidates cfg hi hf hg⟩
    · exact halike.exists_first_segment ((le_max_right 1 cfg.minRun).trans hlong)
  · intro p frames r hlong
    have hpos : 0 < frames.length := (le_max_left 1 cfg.minRun).trans hlong
    have halike : AlikeUpTo frames.length frames frames := by
      intro i hi
      exact ⟨frames[i], frames[i], List.getElem?_eq_getElem hi,
        List.getElem?_eq_getElem hi, rfl⟩
    obtain ⟨hpairs, ⟨first, last, first', last', hfirst, hlast, hfirst', hlast', hsegments⟩,
      hscore, hscore'⟩ :=
      matchFingerprints_of_inStep cfg p p 0 frames rfl
        ((le_max_right 1 cfg.minRun).trans hlong) fun i f g hf hg => by
          rw [Nat.zero_add]
          exact halike.exact_mem_acceptedCandidates cfg
            (List.getElem?_eq_some_iff.1 hf).1 hf hg
    obtain rfl : first = first' := Option.some.inj (hfirst.symm.trans hfirst')
    obtain rfl : last = last' := Option.some.inj (hlast.symm.trans hlast')
    have hmem : first ∈ p.features := List.mem_of_mem_filter (List.mem_of_mem_head? hfirst)
    refine ⟨hpairs.trans List.zipWith_self, ⟨_, first, last, hsegments, hfirst, hlast, rfl,
      Binary64.sub_self (p.isFinite_time hmem)⟩, fun hwords => ⟨hscore hwords, ?_⟩⟩
    exact hscore'.trans (coverage_self hpos (p.length_eligible_le hwords _))

/-- A still picture: the two frames that look the same are told apart by their places. -/
theorem copy_stillFrames :
    let frames := stillFrames.features
    let r := matchFingerprints .default stillFrames stillFrames
    AlikeUpTo 2 frames frames ∧ max 1 MatchConfig.default.minRun ≤ frames.length ∧
      (∀ f ∈ frames, f.frame ≤ Text.maxU64) ∧
      (∀ i < 2, ∃ f g, frames[i]? = some f ∧ frames[i]? = some g ∧
        (⟨i, i, f, g, 0⟩ : Candidate) ∈ acceptedCandidates .default frames frames) ∧
      (∃ s, r.segments.head? = some s ∧ 2 ≤ s.length) ∧
      r.pairs = frames.map (fun f => ⟨f, f, 0⟩) ∧ (∃ s, r.segments = [s] ∧ s.offset = 0) ∧
      r.score = 1 ∧ r.referenceScore = 1 := by
  intro frames r
  have halike : AlikeUpTo 2 frames frames := by
    intro i hi
    exact ⟨frames[i], frames[i], List.getElem?_eq_getElem hi, List.getElem?_eq_getElem hi, rfl⟩
  have hlong : max 1 MatchConfig.default.minRun ≤ frames.length := by decide
  have hwords : ∀ f ∈ frames, f.frame ≤ Text.maxU64 := by decide
  obtain ⟨hstart, hself⟩ := matchFingerprints_copy .default
  have hstart := hstart stillFrames stillFrames 2
  have hself := hself stillFrames
  rw [eligible_stillFrames] at hstart hself
  obtain ⟨haccepted, hfirst⟩ := hstart halike
  obtain ⟨s, -, -, hs, -, -, -, -, hlength⟩ := hfirst hlong
  obtain ⟨hpairs, ⟨s', -, -, hsegments, -, -, -, hoffset⟩, hscore⟩ := hself hlong
  exact ⟨halike, hlong, hwords, haccepted, ⟨s, hs, hlength⟩, hpairs, ⟨s', hsegments, hoffset⟩,
    hscore hwords⟩

end VideoFingerprint
