import VideoFingerprint.Proofs.Matching.Diagonal

/-!
Clips. A query whose frames all look different is found where it was cut from, as one segment,
if the reference shows none of its frames anywhere else. What comes before and after the clip
may be as similar as it likes: no candidate of these frames is exact, and the exact ones are
tried first.
-/

namespace VideoFingerprint

open Candidate

variable {cfg : MatchConfig} {query before clip after : List Feature}

/-- `clip` shows the frames of the query, which all look different, and the frames around it
show none of them. -/
structure IsClip (query before clip after : List Feature) : Prop where
  sameHashes : clip.map Feature.hash = query.map Feature.hash
  distinct : (query.map Feature.hash).Nodup
  elsewhere : ∀ g ∈ before ++ after, g.hash ∉ query.map Feature.hash

namespace IsClip

theorem length_eq (h : IsClip query before clip after) : clip.length = query.length := by
  rw [← List.length_map Feature.hash, h.sameHashes, List.length_map]

theorem hash_eq (h : IsClip query before clip after) {i : ℕ} {f g : Feature}
    (hf : query[i]? = some f) (hg : clip[i]? = some g) : f.hash = g.hash := by
  have hsame : (clip.map Feature.hash)[i]? = (query.map Feature.hash)[i]? := by
    rw [h.sameHashes]
  rw [List.getElem?_map, List.getElem?_map, hf, hg] at hsame
  exact (Option.some.inj hsame).symm

theorem getElem?_shift (before clip after : List Feature) {i : ℕ} (hi : i < clip.length) :
    (before ++ clip ++ after)[before.length + i]? = clip[i]? := by
  rw [List.append_assoc, List.getElem?_append_right (Nat.le_add_right _ _),
    Nat.add_sub_cancel_left, List.getElem?_append_left hi]

/-- Frames of the query and the reference look the same only in the same place of the clip. -/
theorem q_eq (h : IsClip query before clip after) {c : Candidate}
    (hc : c ∈ all cfg query (before ++ clip ++ after)) (hdistance : c.distance = 0) :
    c.q = before.length + c.p := by
  obtain ⟨hf, hg, -⟩ := mem_all_iff.1 hc
  have hhash : c.query.hash = c.reference.hash := hash_eq_of_distance_eq_zero hc hdistance
  have hshown : c.reference.hash ∈ query.map Feature.hash :=
    hhash ▸ List.mem_map_of_mem (List.mem_of_getElem? hf)
  have hinside : c.reference ∉ before ++ after := fun hmem => h.elsewhere _ hmem hshown
  rw [List.mem_append, not_or] at hinside
  obtain ⟨hbefore, hafter⟩ := hinside
  have hle : before.length ≤ c.q := by
    by_contra hlt
    rw [List.append_assoc, List.getElem?_append_left (not_le.1 hlt)] at hg
    exact hbefore (List.mem_of_getElem? hg)
  obtain ⟨j, hj⟩ := Nat.exists_eq_add_of_le hle
  rw [hj, List.append_assoc, List.getElem?_append_right (Nat.le_add_right _ _),
    Nat.add_sub_cancel_left] at hg
  have hlt : j < clip.length := by
    by_contra hge
    rw [List.getElem?_append_right (not_lt.1 hge)] at hg
    exact hafter (List.mem_of_getElem? hg)
  rw [List.getElem?_append_left hlt] at hg
  have hfirst : (query.map Feature.hash)[c.p]? = some c.query.hash := by
    rw [List.getElem?_map, hf]
    rfl
  have hsecond : (query.map Feature.hash)[j]? = some c.reference.hash := by
    rw [← h.sameHashes, List.getElem?_map, hg]
    rfl
  obtain ⟨hp, -⟩ := List.getElem?_eq_some_iff.1 hfirst
  have hplace : c.p = j := (List.getElem?_inj hp h.distinct).1 (by rw [hfirst, hsecond, hhash])
  rw [hj, hplace]

/-- The frames of the query are paired with those of the clip. -/
theorem exact_mem_acceptedCandidates (h : IsClip query before clip after) {i : ℕ}
    {f g : Feature} (hf : query[i]? = some f) (hg : clip[i]? = some g) :
    exact i (before.length + i) f g ∈
      acceptedCandidates cfg query (before ++ clip ++ after) := by
  have hi : i < clip.length := (List.getElem?_eq_some_iff.1 hg).1
  have hmem : exact i (before.length + i) f g ∈ all cfg query (before ++ clip ++ after) :=
    exact_mem_all hf ((getElem?_shift before clip after hi).trans hg) (h.hash_eq hf hg)
  have hsame : ∀ a ∈ all cfg query (before ++ clip ++ after), a.distance = 0 → a.p = i →
      a = exact i (before.length + i) f g := by
    intro a ha hdistance hp
    have hq := h.q_eq ha hdistance
    exact eq_of_places_eq ha hmem (Prod.ext hp (hq.trans (congrArg _ hp)))
  refine mem_acceptedCandidates_of_alone hmem (fun d hd hrank => ?_)
    (fun a ha hlt hconflict => ?_)
  · have hdistance : d.distance = 0 := Nat.le_zero.1 (distance_le_of_rank_le hrank.le)
    have hq := h.q_eq hd hdistance
    refine hsame d hd hdistance ?_
    rcases places_eq_or_swap hrank with hplaces | hplaces
    · exact congrArg Prod.fst hplaces
    · have hp : d.p = before.length + i := congrArg Prod.fst hplaces
      have hq' : d.q = i := congrArg Prod.snd hplaces
      omega
  · have ha' := mem_all_of_mem_acceptedCandidates ha
    have hdistance : a.distance = 0 := Nat.le_zero.1 (distance_le_of_rank_le hlt.le)
    have hq := h.q_eq ha' hdistance
    have hp : a.p = i := by
      simp only [Conflict, places, Candidate.exact] at hconflict
      omega
    exact absurd hlt (hsame a ha' hdistance hp ▸ lt_irrefl _)

end IsClip

/-- An exact clip is found at its offset: it is one segment, in which each frame of the query
is paired with the frame of its turn in the clip, at distance zero. -/
theorem matchFingerprints_clip (cfg : MatchConfig) (query reference : Fingerprint)
    (before clip after : List Feature)
    (hreference : reference.eligible cfg.minQuality = before ++ clip ++ after)
    (hclip : IsClip (query.eligible cfg.minQuality) before clip after)
    (hlong : cfg.minRun ≤ (query.eligible cfg.minQuality).length) :
    let frames := query.eligible cfg.minQuality
    let n := frames.length
    let r := matchFingerprints cfg query reference
    (r.pairs.length = n ∧ ∀ i < n, ∃ f g, frames[i]? = some f ∧
      (reference.eligible cfg.minQuality)[before.length + i]? = some g ∧
      r.pairs[i]? = some ⟨f, g, 0⟩) ∧
    (∃ first last first' last', frames.head? = some first ∧ frames.getLast? = some last ∧
      clip.head? = some first' ∧ clip.getLast? = some last' ∧
      r.segments = [⟨n, .between first last, .between first' last'⟩]) ∧
    ((∀ f ∈ query.features, f.frame ≤ Text.maxU64) → r.score = 1) ∧
    r.referenceScore = Float.ofNat n / Float.ofNat (before.length + n + after.length) := by
  intro frames n r
  have hpos : 0 < n := cfg.one_le_minRun.trans hlong
  obtain ⟨hpairs, hsegments, hscore, hscore'⟩ :=
    matchFingerprints_of_inStep cfg query reference before.length clip hclip.length_eq hlong
      fun i f g hf hg => hreference ▸ hclip.exact_mem_acceptedCandidates hf hg
  have hcount : (reference.eligible cfg.minQuality).length =
      before.length + n + after.length := by
    rw [hreference, List.length_append, List.length_append, hclip.length_eq]
  refine ⟨⟨?_, fun i hi => ?_⟩, hsegments, hscore, ?_⟩
  · rw [hpairs, List.length_zipWith, hclip.length_eq, Nat.min_self]
  · have hi' : i < clip.length := hclip.length_eq.symm ▸ hi
    refine ⟨frames[i], clip[i], List.getElem?_eq_getElem hi, ?_, ?_⟩
    · rw [hreference, IsClip.getElem?_shift before clip after hi',
        List.getElem?_eq_getElem hi']
    · rw [hpairs, List.getElem?_zipWith, List.getElem?_eq_getElem hi,
        List.getElem?_eq_getElem hi']
      rfl
  · rw [hscore', hcount, coverage, if_neg (by omega)]

/-- Two frames that differ in one bit, to be found among frames that differ from them
in one bit too. -/
def cutOut : Fingerprint :=
  ⟨[⟨0, 0, ⟨0⟩, 100⟩, ⟨1, 1, ⟨1⟩, 100⟩], 1, 2, by decide +kernel⟩

def cutFrom : Fingerprint :=
  ⟨[⟨0, 0, ⟨2⟩, 100⟩, ⟨1, 1, ⟨0⟩, 100⟩, ⟨2, 2, ⟨1⟩, 100⟩, ⟨3, 3, ⟨3⟩, 100⟩], 1,
    4, by decide +kernel⟩

theorem clip_cutOut :
    let before : List Feature := [⟨0, 0, ⟨2⟩, 100⟩]
    let clip : List Feature := [⟨1, 1, ⟨0⟩, 100⟩, ⟨2, 2, ⟨1⟩, 100⟩]
    let after : List Feature := [⟨3, 3, ⟨3⟩, 100⟩]
    let r := matchFingerprints .default cutOut cutFrom
    cutFrom.eligible MatchConfig.default.minQuality = before ++ clip ++ after ∧
      IsClip cutOut.features before clip after ∧
      MatchConfig.default.minRun ≤ cutOut.features.length ∧
      (∀ f ∈ cutOut.features, f.frame ≤ Text.maxU64) ∧
      (∃ s, r.segments = [s] ∧ s.length = 2) ∧ r.score = 1 ∧
      r.referenceScore = Float.ofNat 2 / Float.ofNat 4 := by
  intro before clip after r
  have hquery : cutOut.eligible MatchConfig.default.minQuality = cutOut.features :=
    List.filter_eq_self.2 (by decide +kernel)
  have hreference : cutFrom.eligible MatchConfig.default.minQuality =
      before ++ clip ++ after :=
    List.filter_eq_self.2 (by decide +kernel)
  have hclip : IsClip cutOut.features before clip after :=
    ⟨rfl, by decide +kernel, by decide +kernel⟩
  have hlong : MatchConfig.default.minRun ≤ cutOut.features.length := by decide
  have hwords : ∀ f ∈ cutOut.features, f.frame ≤ Text.maxU64 := by decide
  have h := matchFingerprints_clip .default cutOut cutFrom before clip after hreference
  rw [hquery] at h
  obtain ⟨-, ⟨first, last, first', last', -, -, -, -, hsegments⟩, hscore, hscore'⟩ :=
    h hclip hlong
  exact ⟨hreference, hclip, hlong, hwords, ⟨_, hsegments, rfl⟩, hscore hwords, hscore'⟩

end VideoFingerprint
