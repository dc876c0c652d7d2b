import VideoFingerprint.Proofs.Sampling.Stretch
import VideoFingerprint.Proofs.Video.Workers

/-!
Outcomes of hashing. Whatever a decoder answers, hashing ends with the report of a frame that
is too small, or with a fingerprint and the completion that the sampler recorded. It never
gives up, because the features of a sampler's frames make a fingerprint in whatever order they
arrive.
-/

namespace VideoFingerprint.VideoHashing

/-- What hashing the frames of a decoder may lead to. They are hashed one after the other, or
by several workers, whose hashes arrive in any order. -/
inductive MayGive (transformRow : RowTransform) (o : CreationOptions) (d : Decoder Float Image)
    (cancelled : Bool) : HashResult → Prop
  | inTurn : MayGive transformRow o d cancelled (sequentially transformRow o d cancelled).1
  | atOnce (arrange : List (Except VideoError Feature) → List (Except VideoError Feature))
      (harrange : ∀ results, (arrange results).Perm results) :
      MayGive transformRow o d cancelled (concurrently transformRow o d cancelled arrange)

/-- What an outcome tells of the sampler that has been run to its end, and of the frames that
were selected. -/
structure Tells (transformRow : RowTransform) (o : CreationOptions) (d : Decoder Float Image)
    (cancelled : Bool) (r : HashOutcome) : Prop where
  completion_eq : (Sampler.ofDecoder d o.interval cancelled).drain.2.completion? =
    some r.completion
  decoded_eq : (Sampler.ofDecoder d o.interval cancelled).drain.2.decoded = r.decoded
  features_eq : (selected o d cancelled).map (hashFrame transformRow) =
    r.fingerprint.features.map .ok
  inOrder : InOrder r.fingerprint.features

variable {transformRow : RowTransform} {o : CreationOptions} {d : Decoder Float Image}
  {cancelled : Bool} {result : HashResult}

theorem tells_outcomeOf {fs : List Feature} (h : InOrder fs)
    (hfs : (selected o d cancelled).map (hashFrame transformRow) = fs.map .ok)
    (arrived : List Feature) :
    Tells transformRow o d cancelled (outcomeOf o d cancelled h arrived) where
  completion_eq := by
    obtain ⟨c, hc⟩ := Sampler.exists_completion_drain d o.interval cancelled
    rw [outcomeOf, hc]
    rfl
  decoded_eq := rfl
  features_eq := hfs
  inOrder := h

/-- Without small frames there is an outcome. -/
theorem MayGive.exists_tells (h : MayGive transformRow o d cancelled result)
    (hlarge : ∀ f ∈ selected o d cancelled, f.tooSmall = false) :
    ∃ r, result = .ok (.ok r) ∧ Tells transformRow o d cancelled r := by
  obtain ⟨fs, hfs, horder⟩ := exists_features_selected transformRow hlarge
  cases h with
  | inTurn => exact ⟨_, sequentially_of_features horder hfs, tells_outcomeOf horder hfs fs⟩
  | atOnce arrange harrange =>
      obtain ⟨arrived, -, hresult⟩ := concurrently_of_features horder hfs harrange
      exact ⟨_, hresult, tells_outcomeOf horder hfs arrived⟩

/-- With a small frame, one of them is reported. -/
theorem MayGive.exists_tooSmall (h : MayGive transformRow o d cancelled result)
    (hsmall : ∃ f ∈ selected o d cancelled, f.tooSmall = true) :
    ∃ f ∈ selected o d cancelled, f.tooSmall = true ∧ result = tooSmallResult f := by
  cases h with
  | inTurn =>
      have hkept : ∀ results : List (Except VideoError Feature), (id results).Perm results :=
        List.Perm.refl
      obtain ⟨f, hf, hresult⟩ := (tooSmall_of_small hkept hsmall).1
      exact ⟨f, List.mem_of_find?_eq_some hf, List.find?_some hf, hresult⟩
  | atOnce arrange harrange => exact (tooSmall_of_small harrange hsmall).2

theorem MayGive.tooSmall_or_tells (h : MayGive transformRow o d cancelled result) :
    (∃ f ∈ selected o d cancelled, f.tooSmall = true ∧ result = tooSmallResult f) ∨
      ∃ r, result = .ok (.ok r) ∧ Tells transformRow o d cancelled r := by
  by_cases hsmall : ∃ f ∈ selected o d cancelled, f.tooSmall = true
  · exact Or.inl (h.exists_tooSmall hsmall)
  · exact Or.inr (h.exists_tells fun f hf => Bool.eq_false_iff.2 fun htrue =>
      hsmall ⟨f, hf, htrue⟩)

/-- Where every selected frame has been hashed, none was too small. -/
theorem large_of_perm {collected : List Feature}
    (h : (collected.map .ok).Perm ((selected o d cancelled).map (hashFrame transformRow))) :
    ∀ f ∈ selected o d cancelled, f.tooSmall = false := by
  intro f hf
  obtain ⟨x, -, hx⟩ := List.mem_map.1 (h.symm.subset (List.mem_map_of_mem hf))
  cases hsmall : f.tooSmall with
  | false => rfl
  | true =>
      rw [hashFrame_of_tooSmall hsmall] at hx
      cases hx

/-- Hashing never gives up, whatever the decoder answers and whenever the job is cancelled. It
reports a selected frame that is too small, or it gives a fingerprint; then the completion is
the one that the sampler recorded, and it says that the video is complete exactly when the
decoder reported the end. The features of all selected frames make a fingerprint in whatever
order they were collected. -/
theorem hashing_never_aborts (transformRow : RowTransform) (o : CreationOptions)
    (d : Decoder Float Image) (cancelled : Bool) :
    let s := Sampler.ofDecoder d o.interval cancelled
    let answers := (s.trace s.callsToEnd).answers
    (∀ result, MayGive transformRow o d cancelled result →
      (∃ f ∈ selected o d cancelled, f.tooSmall = true ∧ result = tooSmallResult f) ∨
      ∃ r, result = .ok (.ok r) ∧ InOrder r.fingerprint.features ∧
        (s.run s.callsToEnd).completion? = some r.completion ∧
        (r.completion = .complete ↔ ∃ a ∈ answers, a.pull = .finished)) ∧
    ∀ collected : List Feature,
      (collected.map .ok).Perm ((selected o d cancelled).map (hashFrame transformRow)) →
      ∀ interval duration, ∃ p, Fingerprint.ofUnordered collected interval duration = .ok p ∧
        InOrder p.features ∧ p.features.Perm collected := by
  intro s answers
  refine ⟨fun result hresult => ?_, fun collected hcollected interval duration => ?_⟩
  · refine hresult.tooSmall_or_tells.imp_right fun ⟨r, hr, htells⟩ => ?_
    have hrun : s.run s.callsToEnd = s.drain.2 := (Sampler.returns_and_run_callsToEnd s).2
    have hcompletion : (s.run s.callsToEnd).completion? = some r.completion :=
      hrun ▸ htells.completion_eq
    have hcomplete := (Sampler.exists_report d o.interval cancelled s.callsToEnd).complete_iff
    rw [hcompletion, Option.some_inj] at hcomplete
    exact ⟨r, hr, htells.inOrder, hcompletion, hcomplete⟩
  · obtain ⟨fs, hfs, horder⟩ :=
      exists_features_selected transformRow (large_of_perm hcollected)
    have hperm : collected.Perm fs := by
      rw [hfs] at hcollected
      exact (List.map_perm_map_iff fun _ _ => Except.ok.inj).1 hcollected
    exact ⟨_, ofUnordered_of_perm horder hperm interval duration, horder, hperm.symm⟩

def brokenVideo : Decoder Float Image := .ofFrames [⟨blackSquare, 0⟩, ⟨blackSquare, 0 / 0⟩] 2

theorem drain_brokenVideo :
    let s := Sampler.ofDecoder brokenVideo everyFrame.interval false
    s.drain.1 = [.ok ⟨0, 0, blackSquare⟩, .error (.badTime 1 (0 / 0) 0)] ∧
      s.drain.2.completion? = some (.incomplete (.badTime 1 (0 / 0) 0)) := by
  intro s
  have haccepts : s.AcceptsAll [⟨blackSquare, 0⟩] := ⟨by decide +kernel, trivial⟩
  have hfirst : s.drain = _ := Sampler.drain_pulling_append (s := s) rfl haccepts
    [⟨.frame ⟨blackSquare, 0 / 0⟩, false⟩] (some 2)
  have hsecond := Sampler.drain_pulling_badTime (s := s.advanceOver [⟨blackSquare, 0⟩])
    (a := ⟨.frame ⟨blackSquare, 0 / 0⟩, false⟩) rfl rfl (by decide +kernel) [] (some 2)
  rw [hfirst, hsecond]
  exact ⟨rfl, rfl⟩

theorem outcome_brokenVideo :
    let results :=
      [(sequentially cosineTransform everyFrame brokenVideo false).1,
        concurrently cosineTransform everyFrame brokenVideo false id]
    (∀ result ∈ results, MayGive cosineTransform everyFrame brokenVideo false result ∧
      ∃ r, result = .ok (.ok r) ∧
      InOrder r.fingerprint.features ∧ r.completion = .incomplete (.badTime 1 (0 / 0) 0)) ∧
    ∃ x, hashFrame cosineTransform ⟨0, 0, blackSquare⟩ = .ok x ∧
      ([x].map .ok).Perm ((selected everyFrame brokenVideo false).map
        (hashFrame cosineTransform)) ∧
      ∃ p, Fingerprint.ofUnordered [x] 0 2 = .ok p ∧ InOrder p.features ∧
        p.features.Perm [x] := by
  intro results
  obtain ⟨hitems, hcompletion⟩ := drain_brokenVideo
  have hselected : selected everyFrame brokenVideo false = [⟨0, 0, blackSquare⟩] := by
    rw [selected, hitems]
    rfl
  obtain ⟨houtcome, hcollected⟩ :=
    hashing_never_aborts cosineTransform everyFrame brokenVideo false
  constructor
  · have hmay : ∀ result ∈ results,
        MayGive cosineTransform everyFrame brokenVideo false result := by
      intro result hresult
      rcases List.mem_pair.1 hresult with rfl | rfl
      · exact .inTurn
      · exact .atOnce id fun _ => List.Perm.refl _
    refine fun result hresult => ⟨hmay result hresult, ?_⟩
    rcases houtcome result (hmay result hresult) with
      ⟨f, hf, hsmall, -⟩ | ⟨r, hr, horder, hrecorded, -⟩
    · rw [hselected] at hf
      obtain rfl := List.mem_singleton.1 hf
      cases hsmall
    · rw [(Sampler.returns_and_run_callsToEnd _).2, hcompletion] at hrecorded
      exact ⟨r, hr, horder, (Option.some.inj hrecorded).symm⟩
  · obtain ⟨x, hx⟩ := exists_hashFrame cosineTransform (f := ⟨0, 0, blackSquare⟩) rfl
    have hperm :
        ([x].map .ok).Perm ((selected everyFrame brokenVideo false).map
          (hashFrame cosineTransform)) := by
      rw [hselected, List.map_singleton, List.map_singleton, hx]
    exact ⟨x, hx, hperm, hcollected [x] hperm 0 2⟩

end VideoFingerprint.VideoHashing
