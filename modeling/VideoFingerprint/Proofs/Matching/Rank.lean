import Mathlib.Data.List.SplitBy
import Mathlib.Data.Prod.Lex
import VideoFingerprint.Matching.Align
import VideoFingerprint.Proofs.Matching.Chain

/-!
The rank of a candidate as one key in lexicographic order. The comparison that sorts candidates
is the comparison of these keys, and two candidates of one rank are mirror images of each
other.
-/

namespace VideoFingerprint.Candidate

def places (c : Candidate) : Nat × Nat := (c.p, c.q)

def mirror (c : Candidate) : Candidate := ⟨c.q, c.p, c.reference, c.query, c.distance⟩

/-- The key of a candidate: its distance, the sum and the distance of its places, and its two
hashes as numbers, the smaller one first. -/
def rank (c : Candidate) : Nat ×ₗ Nat ×ₗ Nat ×ₗ Nat ×ₗ Nat :=
  toLex (c.distance, toLex (c.p + c.q, toLex (c.skew,
    toLex ((Hash.least c.query.hash c.reference.hash).value.toNat,
      (Hash.greatest c.query.hash c.reference.hash).value.toNat))))

/-! ### Comparing ranks -/

theorem compareRank_eq_lt_iff (a b : Candidate) : compareRank a b = .lt ↔ a.rank < b.rank := by
  simp only [compareRank, rank, Hash.compare, Prod.Lex.toLex_lt_toLex, Ordering.then_eq_lt,
    Nat.compare_eq_lt, Nat.compare_eq_eq]

theorem compareRank_eq_eq_iff (a b : Candidate) : compareRank a b = .eq ↔ a.rank = b.rank := by
  simp only [compareRank, rank, Hash.compare, Ordering.then_eq_eq, Nat.compare_eq_eq,
    EmbeddingLike.apply_eq_iff_eq, Prod.mk.injEq]

theorem sameRank_iff (a b : Candidate) : a.sameRank b = true ↔ a.rank = b.rank := by
  rw [sameRank, beq_iff_eq, compareRank_eq_eq_iff]

/-- The order of sorting refines the order of ranks by the places of the frames. -/
theorem sortsBefore_iff (a b : Candidate) :
    a.sortsBefore b = true ↔
      toLex (a.rank, toLex a.places) ≤ toLex (b.rank, toLex b.places) := by
  have hle : ∀ o : Ordering, o.isLE = true ↔ o = .lt ∨ o = .eq := by decide
  simp only [sortsBefore, hle, Ordering.then_eq_lt, Ordering.then_eq_eq, compareRank_eq_lt_iff,
    compareRank_eq_eq_iff, Nat.compare_eq_lt, Nat.compare_eq_eq, Prod.Lex.toLex_le_toLex,
    places]
  constructor
  · rintro ((h | ⟨hr, h | ⟨hp, hq⟩⟩) | ⟨hr, hp, hq⟩)
    · exact Or.inl h
    · exact Or.inr ⟨hr, Or.inl h⟩
    · exact Or.inr ⟨hr, Or.inr ⟨hp, hq.le⟩⟩
    · exact Or.inr ⟨hr, Or.inr ⟨hp, hq.le⟩⟩
  · rintro (h | ⟨hr, h | ⟨hp, hq⟩⟩)
    · exact Or.inl (Or.inl h)
    · exact Or.inl (Or.inr ⟨hr, Or.inl h⟩)
    · rcases hq.lt_or_eq with hlt | heq
      · exact Or.inl (Or.inr ⟨hr, Or.inr ⟨hp, hlt⟩⟩)
      · exact Or.inr ⟨hr, hp, heq⟩

theorem rank_le_of_sortsBefore {a b : Candidate} (h : a.sortsBefore b = true) :
    a.rank ≤ b.rank := by
  rw [sortsBefore_iff, Prod.Lex.toLex_le_toLex] at h
  rcases h with hlt | ⟨heq, -⟩
  · exact hlt.le
  · exact heq.le

theorem pairwise_rank_mergeSort (cs : List Candidate) :
    (cs.mergeSort sortsBefore).Pairwise fun a b => a.rank ≤ b.rank := by
  have htrans : ∀ a b c : Candidate, a.sortsBefore b → b.sortsBefore c → a.sortsBefore c := by
    intro a b c hab hbc
    rw [sortsBefore_iff] at hab hbc ⊢
    exact hab.trans hbc
  have htotal : ∀ a b : Candidate, a.sortsBefore b || b.sortsBefore a := by
    intro a b
    rw [Bool.or_eq_true, sortsBefore_iff, sortsBefore_iff]
    exact le_total _ _
  exact (List.pairwise_mergeSort htrans htotal cs).imp rank_le_of_sortsBefore

/-! ### Mirror images -/

@[simp] theorem mirror_mirror (c : Candidate) : c.mirror.mirror = c := rfl

@[simp] theorem places_mirror (c : Candidate) : c.mirror.places = c.places.swap := rfl

@[simp] theorem rank_mirror (c : Candidate) : c.mirror.rank = c.rank := by
  have hskew : c.mirror.skew = c.skew := by
    show (if c.q ≤ c.p then c.p - c.q else c.q - c.p) =
      if c.p ≤ c.q then c.q - c.p else c.p - c.q
    split <;> split <;> omega
  simp only [rank, hskew]
  simp only [mirror, Nat.add_comm c.q c.p, Hash.least_comm c.reference.hash,
    Hash.greatest_comm c.reference.hash]

theorem places_eq_or_swap {a b : Candidate} (h : a.rank = b.rank) :
    a.places = b.places ∨ a.places = b.places.swap := by
  simp only [rank, EmbeddingLike.apply_eq_iff_eq, Prod.mk.injEq] at h
  obtain ⟨-, hsum, hskew, -⟩ := h
  simp only [skew] at hskew
  simp only [places, Prod.swap_prod_mk, Prod.mk.injEq]
  split at hskew <;> split at hskew <;> omega

theorem conflict_of_swap {a b : Nat × Nat} (hne : a ≠ b) (hswap : a = b.swap) :
    Conflict a b := by
  obtain ⟨p, q⟩ := b
  subst hswap
  simp only [ne_eq, Prod.swap_prod_mk, Prod.mk.injEq] at hne
  simp only [Conflict, Prod.swap_prod_mk]
  omega

/-! ### All candidates -/

variable {cfg : MatchConfig} {query reference : List Feature}

theorem mem_all_iff {c : Candidate} :
    c ∈ all cfg query reference ↔
      query[c.p]? = some c.query ∧ reference[c.q]? = some c.reference ∧
        c.distance = c.query.hash.distance c.reference.hash ∧
        cfg.within c.distance = true := by
  simp only [all, List.mem_flatMap, List.mem_filterMap, Prod.exists,
    List.mem_zipIdx_iff_getElem?]
  constructor
  · rintro ⟨f, p, hf, g, q, hg, hc⟩
    split at hc
    · rename_i hwithin
      cases hc
      exact ⟨hf, hg, rfl, hwithin⟩
    · cases hc
  · rintro ⟨hf, hg, hd, hwithin⟩
    refine ⟨c.query, c.p, hf, c.reference, c.q, hg, ?_⟩
    rw [← hd, if_pos hwithin]

theorem eq_of_places_eq {a b : Candidate} (ha : a ∈ all cfg query reference)
    (hb : b ∈ all cfg query reference) (h : a.places = b.places) : a = b := by
  obtain ⟨hp, hq⟩ := Prod.mk.inj h
  obtain ⟨hf, hg, hd, -⟩ := mem_all_iff.1 ha
  obtain ⟨hf', hg', hd', -⟩ := mem_all_iff.1 hb
  have hquery : a.query = b.query := by
    rw [hp, hf'] at hf
    exact (Option.some.inj hf).symm
  have hreference : a.reference = b.reference := by
    rw [hq, hg'] at hg
    exact (Option.some.inj hg).symm
  rw [hquery, hreference, ← hd'] at hd
  cases a
  cases b
  simp only [mk.injEq]
  exact ⟨hp, hq, hquery, hreference, hd⟩

theorem q_lt_length {c : Candidate} (hc : c ∈ all cfg query reference) :
    c.q < reference.length :=
  (List.getElem?_eq_some_iff.1 (mem_all_iff.1 hc).2.1).1

/-- Two different candidates of one rank are mirror images of each other and cross. -/
theorem swap_and_conflict_of_rank_eq {a b : Candidate} (ha : a ∈ all cfg query reference)
    (hb : b ∈ all cfg query reference) (hne : a ≠ b) (h : a.rank = b.rank) :
    a.places = b.places.swap ∧ Conflict a.places b.places := by
  have hplaces : a.places ≠ b.places := fun heq => hne (eq_of_places_eq ha hb heq)
  have hswap := (places_eq_or_swap h).resolve_left hplaces
  exact ⟨hswap, conflict_of_swap hplaces hswap⟩

theorem mirror_mem_all {c : Candidate} (hc : c ∈ all cfg query reference) :
    c.mirror ∈ all cfg reference query := by
  rw [mem_all_iff] at hc ⊢
  obtain ⟨hf, hg, hd, hwithin⟩ := hc
  exact ⟨hg, hf, hd.trans (Hash.distance_comm _ _), hwithin⟩

theorem mem_all_mirror_iff {c : Candidate} :
    c.mirror ∈ all cfg reference query ↔ c ∈ all cfg query reference :=
  ⟨mirror_mem_all, mirror_mem_all⟩

theorem pairwise_snd_zipIdx (fs : List Feature) : fs.zipIdx.Pairwise fun a b => a.2 ≠ b.2 := by
  have h : (fs.zipIdx.map Prod.snd).Nodup := by
    rw [List.zipIdx_map_snd]
    exact List.nodup_range'
  exact List.pairwise_map.1 h

theorem nodup_all (cfg : MatchConfig) (query reference : List Feature) :
    (all cfg query reference).Nodup := by
  rw [all, List.nodup_flatMap]
  constructor
  · rintro ⟨f, p⟩ -
    refine (pairwise_snd_zipIdx reference).filterMap _ ?_
    rintro ⟨g, q⟩ ⟨g', q'⟩ hne c hc c' hc' rfl
    simp only [Option.ite_none_right_eq_some, Option.some.injEq] at hc hc'
    obtain ⟨-, rfl⟩ := hc
    exact hne (congrArg Candidate.q hc'.2).symm
  · refine (pairwise_snd_zipIdx query).imp ?_
    rintro ⟨f, p⟩ ⟨f', p'⟩ hne c hc hc'
    simp only [List.mem_filterMap, Option.ite_none_right_eq_some, Option.some.injEq] at hc hc'
    obtain ⟨_, -, -, rfl⟩ := hc
    obtain ⟨_, -, -, heq⟩ := hc'
    exact hne (congrArg Candidate.p heq).symm

/-! ### Groups of one rank -/

/-- The groups of a list that rises in rank: the rank is the same inside a group and rises from
one group to the next. -/
theorem splitBy_sameRank {cs : List Candidate} (h : cs.Pairwise fun a b => a.rank ≤ b.rank) :
    (∀ g ∈ cs.splitBy sameRank, ∀ a ∈ g, ∀ b ∈ g, a.rank = b.rank) ∧
      (cs.splitBy sameRank).Pairwise fun g g' => ∀ a ∈ g, ∀ b ∈ g', a.rank < b.rank := by
  have hgroup : ∀ g ∈ cs.splitBy sameRank, ∀ a ∈ g, ∀ b ∈ g, a.rank = b.rank := by
    intro g hg
    have hchain : g.IsChain fun a b => a.rank = b.rank :=
      (List.isChain_of_mem_splitBy hg).imp fun a b hab => (sameRank_iff a b).1 hab
    have hpair := List.isChain_iff_pairwise.1 hchain
    have : Std.Symm fun a b : Candidate => a.rank = b.rank := ⟨fun _ _ => Eq.symm⟩
    have hall := List.Pairwise.forall_of_forall (R := fun a b : Candidate => a.rank = b.rank)
      (fun _ _ => rfl) hpair
    exact fun a ha b hb => hall ha hb
  refine ⟨hgroup, ?_⟩
  have hchain := List.isChain_getLast_head_splitBy sameRank cs
  rw [← List.flatten_splitBy sameRank cs] at h
  generalize cs.splitBy sameRank = groups at h hgroup hchain
  induction groups with
  | nil => exact List.Pairwise.nil
  | cons g groups ih =>
      rw [List.flatten_cons, List.pairwise_append] at h
      refine List.pairwise_cons.2
        ⟨?_, ih h.2.1 (fun g' hg' => hgroup g' (List.mem_cons_of_mem g hg'))
        hchain.tail⟩
      cases groups with
      | nil => simp
      | cons next groups =>
          obtain ⟨hg, hnext, hdiffer⟩ := hchain.rel
          have hjump : (g.getLast hg).rank < (next.head hnext).rank := by
            refine lt_of_le_of_ne (h.2.2 _ (List.getLast_mem hg) _ ?_) ?_
            · exact List.mem_append_left _ (List.head_mem hnext)
            · rw [ne_eq, ← sameRank_iff, hdiffer]
              exact Bool.false_ne_true
          have hlater : ∀ b ∈ (next :: groups).flatten, (next.head hnext).rank ≤ b.rank := by
            have hsorted := h.2.1
            rw [List.flatten_cons, ← List.cons_head_tail hnext, List.cons_append,
              List.pairwise_cons] at hsorted
            intro b hb
            rw [List.flatten_cons, ← List.cons_head_tail hnext, List.cons_append] at hb
            rcases List.mem_cons.1 hb with rfl | hb
            · rfl
            · exact hsorted.1 b hb
          intro g' hg' a ha b hb
          calc
            a.rank = (g.getLast hg).rank :=
              hgroup g List.mem_cons_self a ha _ (List.getLast_mem hg)
            _ < (next.head hnext).rank := hjump
            _ ≤ b.rank := hlater b (List.mem_flatten_of_mem hg' hb)

end VideoFingerprint.Candidate
