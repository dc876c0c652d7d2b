import VideoFingerprint.Corpus.Json
import VideoFingerprint.Proofs.Corpus.Buckets

/-!
Calls on an index, one after the other. A call aborts when it has to split the hash of a frame
and the settings do not say how. Settings that are checked when they are made always do; those
that are read from a text are not checked, and with them every call goes well that comes
without frames, and no other.
-/

namespace VideoFingerprint

namespace IndexConfig

theorem splits_iff_bandWidth {cfg : IndexConfig} :
    cfg.splits = true ↔ 1 ≤ cfg.bandWidth ∧ cfg.bandWidth ≤ 64 :=
  decide_eq_true_iff

/-- Hashes can be split into 4 to 256 bands, though not always evenly. -/
theorem splits_iff {cfg : IndexConfig} :
    cfg.splits = true ↔ 4 ≤ cfg.bands ∧ cfg.bands ≤ 256 := by
  rw [splits_iff_bandWidth, bandWidth, Hash.size]
  rcases Nat.eq_zero_or_pos cfg.bands with hzero | hpos
  · simp [hzero]
  · have hwide : 256 / cfg.bands ≤ 64 ↔ 256 < 65 * cfg.bands := by
      rw [← Nat.lt_succ_iff, Nat.div_lt_iff_lt_mul hpos]
    rw [Nat.le_div_iff_mul_le hpos, hwide]
    omega

/-- Settings that describe equal bands of a hash which fit a word, and a score. -/
structure Usable (cfg : IndexConfig) : Prop where
  bands : cfg.bands * cfg.bandWidth = 256
  width : 1 ≤ cfg.bandWidth ∧ cfg.bandWidth ≤ 64
  score : 0 ≤ cfg.minScore ∧ cfg.minScore ≤ 1

theorem usable_of_fault?_eq_none {cfg : IndexConfig} (h : cfg.fault? = none) : cfg.Usable where
  bands := bands_mul_bandWidth h
  width := splits_iff_bandWidth.1 (splits_of_fault?_eq_none h)
  score := by
    unfold fault? at h
    split at h
    · cases h
    · split at h
      · cases h
      · rename_i hscore
        exact Decidable.not_not.1 hscore

end IndexConfig

namespace Index

variable {ι : Type} {x : Index ι}

inductive Call (ι : Type)
  | insert (name : ι) (p : Fingerprint)
  | shortlist (cfg : MatchConfig) (p : Fingerprint)
  | query (cfg : MatchConfig) (p : Fingerprint)

namespace Call

def run? (x : Index ι) : Call ι → Option (Index ι)
  | insert name p => x.insert? name p
  | shortlist cfg p => (x.shortlist? cfg p).map fun _ => x
  | query cfg p => (x.query? cfg p).map fun _ => x

def frames : Call ι → List Feature
  | insert _ p => p.features
  | shortlist cfg p | query cfg p => p.eligible cfg.minQuality

def stored : Call ι → List (ι × Fingerprint)
  | insert name p => [(name, p)]
  | shortlist _ _ | query _ _ => []

def after (x : Index ι) : Call ι → Index ι
  | insert name p => x.inserted name p
  | shortlist _ _ | query _ _ => x

@[simp] theorem config_after (call : Call ι) : (call.after x).config = x.config := by
  cases call <;> rfl

theorem entries_after (call : Call ι) :
    (call.after x).entries.toList = x.entries.toList ++ call.stored := by
  cases call <;> simp [after, stored, inserted]

theorem filed_after (h : x.Filed) (call : Call ι) : (call.after x).Filed := by
  cases call with
  | insert name p => exact h.inserted name p
  | shortlist => exact h
  | query => exact h

end Call

/-! ### One call -/

theorem insert?_eq (x : Index ι) (name : ι) (p : Fingerprint) :
    x.insert? name p = if x.config.splits = true ∨
    p.features = [] then some (x.inserted name p) else none := by
  by_cases hsplits : x.config.splits = true
  · rw [insert?_eq_some hsplits, if_pos (.inl hsplits)]
  · cases hfs : p.features with
    | nil => simp [insert?, inserted, keysOf, hfs]
    | cons f fs =>
        rw [if_neg (by simp [hsplits]), insert?, hfs, List.foldlM_cons, fileFeature?,
          IndexConfig.keys?, if_neg hsplits]
        rfl

/-- Whether there is an answer at all to a lookup. -/
theorem map_shortlistPlaces? {α : Type} (x : Index ι) (cfg : MatchConfig) (p : Fingerprint)
    (a : α) :
    (x.shortlistPlaces? cfg p).map (fun _ => a) =
      if x.config.splits = true ∨ p.eligible cfg.minQuality = [] then some a else none := by
  rw [shortlistPlaces?, Option.map_map]
  generalize p.eligible cfg.minQuality = fs
  by_cases hsplits : x.config.splits = true
  · rw [places?_eq_some hsplits, if_pos (.inl hsplits)]
    rfl
  · cases fs with
    | nil => rw [if_pos (.inr rfl)]; rfl
    | cons f fs =>
        rw [if_neg (by simp [hsplits]), places?, List.mapM_cons, IndexConfig.keys?,
          if_neg hsplits]
        rfl

/-- A call goes well if hashes can be split or no frame comes with it; otherwise it aborts. -/
theorem run?_eq (x : Index ι) (call : Call ι) :
    call.run? x = if x.config.splits = true ∨ call.frames = [] then some (call.after x)
      else none := by
  cases call with
  | insert name p => exact insert?_eq x name p
  | shortlist cfg p =>
      rw [Call.run?, shortlist?, Option.map_map]
      exact map_shortlistPlaces? x cfg p x
  | query cfg p =>
      rw [Call.run?, query?, Option.map_map]
      exact map_shortlistPlaces? x cfg p x

/-! ### Any calls -/

def runCalls? (x : Index ι) (calls : List (Call ι)) : Option (Index ι) :=
  calls.foldlM Call.run? x

theorem runCalls?_eq (calls : List (Call ι)) : ∀ x : Index ι,
    x.runCalls? calls = if x.config.splits = true ∨ ∀ call ∈ calls, call.frames = [] then
      some (calls.foldl Call.after x) else none := by
  induction calls with
  | nil => intro x; simp [runCalls?]
  | cons call calls ih =>
      intro x
      rw [runCalls?, List.foldlM_cons, run?_eq]
      have hrest := ih (call.after x)
      rw [Call.config_after] at hrest
      by_cases hsplits : x.config.splits = true
      · rw [if_pos (.inl hsplits), if_pos (.inl hsplits)]
        rw [if_pos (.inl hsplits)] at hrest
        exact hrest
      · by_cases hframes : call.frames = []
        · rw [if_pos (.inr hframes)]
          refine hrest.trans ?_
          simp [hsplits, hframes]
        · rw [if_neg (not_or.2 ⟨hsplits, hframes⟩), if_neg]
          · rfl
          · simp [hsplits, hframes]

theorem entries_foldl_after (calls : List (Call ι)) : ∀ x : Index ι,
    (calls.foldl Call.after x).entries.toList =
      x.entries.toList ++ calls.flatMap Call.stored := by
  induction calls with
  | nil => intro x; simp
  | cons call calls ih =>
      intro x; rw [List.foldl_cons, ih, Call.entries_after, List.flatMap_cons,
        List.append_assoc]

theorem filed_foldl_after (calls : List (Call ι)) :
    ∀ x : Index ι, x.Filed → (calls.foldl Call.after x).Filed := by
  induction calls with
  | nil => exact fun x h => h
  | cons call calls ih => exact fun x h => ih _ (Call.filed_after h call)

theorem config_foldl_after (calls : List (Call ι)) : ∀ x : Index ι,
    (calls.foldl Call.after x).config = x.config := by
  induction calls with
  | nil => exact fun x => rfl
  | cons call calls ih => intro x; rw [List.foldl_cons, ih, Call.config_after]

/-- Buckets name places of stored fingerprints only. -/
theorem Filed.lt_size (h : x.Filed) {key : BandKey} {i : Nat}
    (hi : i ∈ x.buckets.getD key #[]) : i < x.size := by
  have hmem := Array.mem_toList_iff.2 hi
  rw [h key, List.mem_filter, List.mem_range] at hmem
  exact hmem.1

/-- Checked settings are usable: those that are built and those that are the default. On an
index with them any calls go well, all that is inserted is stored, and buckets name places in
the index only. Whatever the settings are, calls abort exactly if they come with a frame while
there are fewer than 4 or more than 256 bands. -/
theorem runCalls?_of_checked :
    IndexConfig.default.fault? = none ∧
    (∀ bands minScore cfg, IndexConfig.build bands minScore = .ok cfg →
      cfg = ⟨bands, minScore⟩ ∧ cfg.fault? = none) ∧
    (∀ cfg : IndexConfig, cfg.fault? = none → cfg.Usable ∧ ∀ calls : List (Call ι), ∃ x,
      (empty cfg).runCalls? calls = some x ∧ x.config = cfg ∧
      x.entries.toList = calls.flatMap Call.stored ∧
      ∀ key, ∀ i ∈ x.buckets.getD key #[], i < x.size) ∧
    ∀ (cfg : IndexConfig) (calls : List (Call ι)), (empty cfg).runCalls? calls = none ↔
      ¬ (4 ≤ cfg.bands ∧ cfg.bands ≤ 256) ∧ ∃ call ∈ calls, call.frames ≠ [] := by
  refine ⟨by decide +kernel, fun _ _ _ h => IndexConfig.build_eq_ok_iff.1 h, fun cfg h => ?_,
    fun cfg calls => ?_⟩
  · have hsplits := IndexConfig.splits_of_fault?_eq_none h
    refine ⟨IndexConfig.usable_of_fault?_eq_none h,
      fun calls => ⟨calls.foldl Call.after (empty cfg), ?_, ?_, ?_, ?_⟩⟩
    · rw [runCalls?_eq, if_pos (.inl hsplits)]
    · rw [config_foldl_after]
      rfl
    · rw [entries_foldl_after]
      rfl
    · exact fun key i hi => (filed_foldl_after calls _ (filed_empty cfg)).lt_size hi
  · have hconfig : (empty cfg : Index ι).config = cfg := rfl
    have hall : (∃ call ∈ calls, call.frames ≠ []) ↔ ¬ ∀ call ∈ calls, call.frames = [] := by
      simp
    rw [runCalls?_eq, hconfig, ← IndexConfig.splits_iff, hall, ← not_or]
    split
    · rename_i h
      exact iff_of_false (Option.some_ne_none _) (not_not_intro h)
    · rename_i h
      exact iff_of_true rfl h

def oneFrame : Fingerprint := ⟨[⟨0, 0, ⟨1⟩, 80⟩], 1, 1, by decide +kernel⟩

theorem frames_insert_oneFrame (name : ι) : (Call.insert name oneFrame).frames ≠ [] :=
  List.cons_ne_nil _ _

/-- Into an index with 32 bands a fingerprint can be inserted and looked up; with 3 bands it
cannot be inserted. -/
theorem runCalls?_of_checked_oneFrame :
    (∃ cfg : IndexConfig, IndexConfig.build 32 0.5 = .ok cfg ∧ cfg.fault? = none ∧ cfg.Usable ∧
      ∃ x, (empty cfg).runCalls? [.insert "a" oneFrame, .shortlist .default oneFrame,
        .query .default oneFrame] = some x ∧
        x.entries.toList = [("a", oneFrame)]) ∧
      ¬ (4 ≤ 3 ∧ 3 ≤ 256) ∧ (empty ⟨3, 0⟩).runCalls? [.insert "a" oneFrame] = none := by
  obtain ⟨-, hbuild, hchecked, habort⟩ := @runCalls?_of_checked String
  have hok : IndexConfig.build 32 0.5 = .ok ⟨32, 0.5⟩ :=
    IndexConfig.build_eq_ok_iff.2 ⟨rfl, by decide +kernel⟩
  obtain ⟨-, hfault⟩ := hbuild 32 0.5 _ hok
  obtain ⟨husable, hcalls⟩ := hchecked _ hfault
  obtain ⟨x, hx, -, hentries, -⟩ :=
    hcalls [.insert "a" oneFrame, .shortlist .default oneFrame, .query .default oneFrame]
  exact ⟨⟨_, hok, hfault, husable, x, hx, hentries⟩, by decide,
    (habort ⟨3, 0⟩ [.insert "a" oneFrame]).2 ⟨by decide, _, List.mem_singleton_self _,
      frames_insert_oneFrame _⟩⟩

def bandless : String := "\x7b\"bands\": 0, \"min_score\": 7\x7d"

/-- The text is read, although its settings describe neither bands nor a score, and with them
nothing can be inserted. -/
theorem exists_unusable_of_text : ∃ cfg : IndexConfig, Json.Form.ofText bandless = .ok cfg ∧
    cfg.bands * cfg.bandWidth ≠ 256 ∧ ¬ cfg.minScore ≤ 1 ∧
    (empty cfg).runCalls? [.insert "a" oneFrame] = none := by
  have hread :
      ((Json.Form.ofText bandless : Except Json.ReadError IndexConfig).toOption.any fun cfg =>
      cfg.bands = 0 ∧ ¬ cfg.minScore ≤ 1) = true := by decide +kernel
  cases htext : (Json.Form.ofText bandless : Except Json.ReadError IndexConfig) with
  | error e =>
      rw [htext] at hread
      cases hread
  | ok cfg =>
      rw [htext] at hread
      obtain ⟨hbands, hscore⟩ := of_decide_eq_true hread
      have hsplits : cfg.splits = false := by
        rw [← Bool.not_eq_true, IndexConfig.splits_iff, hbands]
        decide
      refine ⟨cfg, rfl, ?_, hscore, ?_⟩
      · rw [hbands, Nat.zero_mul]
        decide
      · rw [runCalls?_eq, if_neg]
        simp [empty, hsplits, frames_insert_oneFrame]

end Index

end VideoFingerprint
