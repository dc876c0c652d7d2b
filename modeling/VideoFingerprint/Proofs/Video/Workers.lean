import Mathlib.Data.List.Perm.Basic
import VideoFingerprint.Proofs.Sampling.Stretch
import VideoFingerprint.Proofs.Video.Features

/-!
Hashing by several workers. One after the other or all at once, the same frames are hashed;
sorting by frame numbers hides the order in which the hashes arrive, and the sampler, which all
workers share, has seen the same answers at the end. Where a frame is too small both ways fail,
at once perhaps on account of a later frame.
-/

namespace VideoFingerprint.VideoHashing

/-! ### The first failure -/

theorem mapM_id_map_ok {ε α : Type} (xs : List α) :
    (xs.map Except.ok).mapM id = (.ok xs : Except ε (List α)) := by
  induction xs with
  | nil => rfl
  | cons x xs ih =>
      rw [List.map_cons, List.mapM_cons, ih]
      rfl

/-- Where not all results are successes, the first failure counts. -/
theorem exists_first_error {ε α : Type} {results : List (Except ε α)}
    (h : ¬ ∀ r ∈ results, ∃ x, r = .ok x) :
    ∃ before e after, results = before ++ .error e :: after ∧ (∀ r ∈ before, ∃ x, r = .ok x) ∧
      results.mapM id = .error e := by
  induction results with
  | nil => exact absurd (by simp) h
  | cons r results ih =>
      cases r with
      | error e =>
          refine ⟨[], e, results, rfl, by simp, ?_⟩
          rw [List.mapM_cons]
          rfl
      | ok x =>
          have hrest : ¬ ∀ r ∈ results, ∃ x, r = .ok x := fun hall =>
            h (List.forall_mem_cons.2 ⟨⟨x, rfl⟩, hall⟩)
          obtain ⟨before, e, after, rfl, hbefore, herror⟩ := ih hrest
          refine ⟨.ok x :: before, e, after, rfl,
            List.forall_mem_cons.2 ⟨⟨x, rfl⟩, hbefore⟩, ?_⟩
          rw [List.mapM_cons, herror]
          rfl

/-! ### One after the other -/

section Steps

variable {transformRow : RowTransform} {s s' : Sampler Float Image}

theorem hashFrames_of_none (h : s.next = (none, s')) :
    hashFrames transformRow s = (.ok [], s') := by
  rw [hashFrames]
  split <;> simp_all

theorem hashFrames_of_reason {reason : StopReason Float}
    (h : s.next = (some (.error reason), s')) :
    hashFrames transformRow s = hashFrames transformRow s' := by
  rw [hashFrames]
  split <;> simp_all

theorem hashFrames_of_failure {f : Frame Float Image} {e : VideoError}
    (h : s.next = (some (.ok f), s')) (hf : hashFrame transformRow f = .error e) :
    hashFrames transformRow s = (.error e, s') := by
  rw [hashFrames]
  split <;> simp_all

theorem hashFrames_of_feature {f : Frame Float Image} {x : Feature}
    (h : s.next = (some (.ok f), s')) (hf : hashFrame transformRow f = .ok x) :
    hashFrames transformRow s =
      ((hashFrames transformRow s').1.map (x :: ·), (hashFrames transformRow s').2) := by
  rw [hashFrames]
  split <;> simp_all

end Steps

/-- Hashing one after the other is hashing the frames of the whole video up to the first
failure; without a failure the sampler has been run to its end. -/
theorem hashFrames_eq (transformRow : RowTransform) (s : Sampler Float Image) :
    (hashFrames transformRow s).1 =
      ((framesOf s.drain.1).map (hashFrame transformRow)).mapM id ∧
      ∀ fs, (hashFrames transformRow s).1 = .ok fs →
        (hashFrames transformRow s).2 = s.drain.2 := by
  induction s using Sampler.drain.induct with
  | case1 s s' h =>
      rw [hashFrames_of_none h, Sampler.drain_of_next_none h]
      exact ⟨rfl, fun _ _ => rfl⟩
  | case2 s item s' h items final hrest ih =>
      obtain ⟨hfirst, hstate⟩ := ih
      cases item with
      | error reason =>
          rw [hashFrames_of_reason h, Sampler.drain_of_next_some h]
          exact ⟨hfirst, hstate⟩
      | ok f =>
          have hframes : framesOf (.ok f :: s'.drain.1) = f :: framesOf s'.drain.1 := rfl
          rw [Sampler.drain_of_next_some h, hframes, List.map_cons, List.mapM_cons, ← hfirst]
          cases hf : hashFrame transformRow f with
          | error e =>
              rw [hashFrames_of_failure h hf]
              exact ⟨rfl, fun fs hfs => by cases hfs⟩
          | ok x =>
              rw [hashFrames_of_feature h hf]
              cases hrest : (hashFrames transformRow s').1 with
              | error e => exact ⟨rfl, fun fs hfs => by cases hfs⟩
              | ok xs => exact ⟨rfl, fun fs hfs => hstate xs hrest⟩

/-! ### One after the other or all at once -/

/-- The same outcome. The lengths of the video are the same number, but may be zeros of
different signs. -/
structure Agrees (r r' : HashOutcome) : Prop where
  features_eq : r.fingerprint.features = r'.fingerprint.features
  interval_eq : r.fingerprint.interval = r'.fingerprint.interval
  duration_eq : r.fingerprint.duration = r'.fingerprint.duration ∨
    (r.fingerprint.duration == r'.fingerprint.duration) = true
  completion_eq : r.completion = r'.completion
  decoded_eq : r.decoded = r'.decoded

def tooSmallResult (f : Frame Float Image) : HashResult :=
  .ok (.error (.cannotHash f.number (.frameTooSmall f.image.width f.image.height)))

variable (o : CreationOptions) (d : Decoder Float Image) (cancelled : Bool)

def selected : List (Frame Float Image) :=
  framesOf (Sampler.ofDecoder d o.interval cancelled).drain.1

variable {o d cancelled} {transformRow : RowTransform}
  {arrange : List (Except VideoError Feature) → List (Except VideoError Feature)}

theorem sequentially_of_error {e : VideoError}
    (h : ((selected o d cancelled).map (hashFrame transformRow)).mapM id = .error e) :
    (sequentially transformRow o d cancelled).1 = .ok (.error e) := by
  have hfirst : (hashFrames transformRow (.ofDecoder d o.interval cancelled)).1 = .error e :=
    (hashFrames_eq transformRow (Sampler.ofDecoder d o.interval cancelled)).1.trans h
  have hpair : hashFrames transformRow (.ofDecoder d o.interval cancelled) =
      (.error e, (hashFrames transformRow (.ofDecoder d o.interval cancelled)).2) :=
    Prod.ext hfirst rfl
  rw [sequentially, hpair]

theorem sequentially_of_ok {fs : List Feature}
    (h : ((selected o d cancelled).map (hashFrame transformRow)).mapM id = .ok fs) :
    (sequentially transformRow o d cancelled).1 =
      finish o.interval d.duration (Sampler.ofDecoder d o.interval cancelled).drain.2 fs := by
  obtain ⟨hfirst, hstate⟩ :=
    hashFrames_eq transformRow (Sampler.ofDecoder d o.interval cancelled)
  have hpair : hashFrames transformRow (.ofDecoder d o.interval cancelled) =
      (.ok fs, (Sampler.ofDecoder d o.interval cancelled).drain.2) :=
    Prod.ext (hfirst.trans h) (hstate fs (hfirst.trans h))
  rw [sequentially, hpair]

theorem concurrently_of_error {e : VideoError}
    (h : (arrange ((selected o d cancelled).map (hashFrame transformRow))).mapM id =
      .error e) :
    concurrently transformRow o d cancelled arrange = .ok (.error e) := by
  unfold selected at h
  simp only [concurrently, h]

theorem concurrently_of_ok {fs : List Feature}
    (h : (arrange ((selected o d cancelled).map (hashFrame transformRow))).mapM id = .ok fs) :
    concurrently transformRow o d cancelled arrange =
      finish o.interval d.duration (Sampler.ofDecoder d o.interval cancelled).drain.2 fs := by
  unfold selected at h
  simp only [concurrently, h]

/-- The outcome of a sampler that has been run to its end, from the features of its frames in
order and the same features in the order in which they arrived. -/
def outcomeOf (o : CreationOptions) (d : Decoder Float Image) (cancelled : Bool)
    {fs : List Feature} (h : InOrder fs) (arrived : List Feature) : HashOutcome :=
  let final := (Sampler.ofDecoder d o.interval cancelled).drain.2
  ⟨⟨fs, o.interval, (d.duration.or (latestTime? arrived)).getD 0, h.firstFault?⟩,
    final.completion?.getD .complete, final.decoded⟩

theorem sequentially_of_features {fs : List Feature} (h : InOrder fs)
    (hfs : (selected o d cancelled).map (hashFrame transformRow) = fs.map .ok) :
    (sequentially transformRow o d cancelled).1 =
      .ok (.ok (outcomeOf o d cancelled h fs)) := by
  have hfirst : ((selected o d cancelled).map (hashFrame transformRow)).mapM id = .ok fs :=
    hfs ▸ mapM_id_map_ok fs
  exact (sequentially_of_ok hfirst).trans (finish_of_perm h (List.Perm.refl fs) _ _ _)

/-- Sorting hides the order in which the features arrived. -/
theorem concurrently_of_features {fs : List Feature} (h : InOrder fs)
    (hfs : (selected o d cancelled).map (hashFrame transformRow) = fs.map .ok)
    (harrange : ∀ results, (arrange results).Perm results) :
    ∃ arrived, arrived.Perm fs ∧
      concurrently transformRow o d cancelled arrange =
        .ok (.ok (outcomeOf o d cancelled h arrived)) := by
  have hperm : (arrange ((selected o d cancelled).map (hashFrame transformRow))).Perm
      (fs.map .ok) := hfs ▸ harrange _
  have hall : ∀ r ∈ arrange ((selected o d cancelled).map (hashFrame transformRow)), ∃ x,
      r = .ok x := by
    intro r hr
    obtain ⟨x, -, rfl⟩ := List.mem_map.1 (hperm.subset hr)
    exact ⟨x, rfl⟩
  obtain ⟨arrived, harrived⟩ :
      ∃ arrived : List Feature,
        arrange ((selected o d cancelled).map (hashFrame transformRow)) = arrived.map .ok :=
    ⟨_, eq_map_ok_of_forall hall⟩
  have hsame : arrived.Perm fs := by
    rw [harrived] at hperm
    exact (List.map_perm_map_iff fun _ _ => Except.ok.inj).1 hperm
  have hfirst : (arrange ((selected o d cancelled).map (hashFrame transformRow))).mapM id =
      .ok arrived :=
    harrived ▸ mapM_id_map_ok arrived
  exact ⟨arrived, hsame, (concurrently_of_ok hfirst).trans (finish_of_perm h hsame _ _ _)⟩

/-- Without small frames the selected frames have features in order. -/
theorem exists_features_selected (transformRow : RowTransform)
    (hlarge : ∀ f ∈ selected o d cancelled, f.tooSmall = false) :
    ∃ fs, (selected o d cancelled).map (hashFrame transformRow) = fs.map .ok ∧ InOrder fs := by
  obtain ⟨hordered, htimes⟩ := Sampler.drain_ordered d o.interval cancelled
  exact exists_features transformRow hlarge hordered htimes

/-- Without small frames both ways give outcomes, which agree. -/
theorem agrees_of_large (harrange : ∀ results, (arrange results).Perm results)
    (hlarge : ∀ f ∈ selected o d cancelled, f.tooSmall = false) :
    ∃ r r', (sequentially transformRow o d cancelled).1 = .ok (.ok r) ∧
      concurrently transformRow o d cancelled arrange = .ok (.ok r') ∧
      Agrees r r' := by
  obtain ⟨fs, hfs, horder⟩ := exists_features_selected transformRow hlarge
  obtain ⟨arrived, hsame, hatOnce⟩ := concurrently_of_features horder hfs harrange
  refine ⟨_, _, sequentially_of_features horder hfs, hatOnce, rfl, rfl, ?_, rfl, rfl⟩
  unfold outcomeOf
  cases d.duration with
  | some duration => exact Or.inl rfl
  | none => exact Or.inr (latestTime?_perm hsame fun x hx => (horder.inRange x hx).2)

/-- A failure is due to a small frame. -/
theorem tooSmall_of_hashFrame_error {f : Frame Float Image} {e : VideoError}
    (h : hashFrame transformRow f = .error e) :
    f.tooSmall = true ∧ e =
      .cannotHash f.number (.frameTooSmall f.image.width f.image.height) := by
  cases hsmall : f.tooSmall with
  | false =>
      obtain ⟨x, hx⟩ := exists_hashFrame transformRow hsmall
      rw [hx] at h
      cases h
  | true =>
      rw [hashFrame_of_tooSmall hsmall] at h
      cases h
      exact ⟨rfl, rfl⟩

/-- With a small frame both ways fail: one after the other at the first small frame, all
at once at any. -/
theorem tooSmall_of_small (harrange : ∀ results, (arrange results).Perm results)
    (hsmall : ∃ f ∈ selected o d cancelled, f.tooSmall = true) :
    (∃ f, (selected o d cancelled).find? Frame.tooSmall = some f ∧
      (sequentially transformRow o d cancelled).1 = tooSmallResult f) ∧
    ∃ f ∈ selected o d cancelled, f.tooSmall = true ∧
      concurrently transformRow o d cancelled arrange = tooSmallResult f := by
  obtain ⟨f, hf, hfsmall⟩ := hsmall
  have hfailure :
      (.error (.cannotHash f.number (.frameTooSmall f.image.width f.image.height))) ∈
      (selected o d cancelled).map (hashFrame transformRow) :=
    List.mem_map.2 ⟨f, hf, hashFrame_of_tooSmall hfsmall⟩
  constructor
  · have hnot : ¬ ∀ r ∈ (selected o d cancelled).map (hashFrame transformRow), ∃ x,
      r = .ok x := fun hall => by
      obtain ⟨x, hx⟩ := hall _ hfailure
      cases hx
    obtain ⟨before, e, after, heq, hbefore, hfirst⟩ := exists_first_error hnot
    obtain ⟨frames, rest, hframes, rfl, hrest⟩ := List.map_eq_append_iff.1 heq
    obtain ⟨g, later, rfl, hg, -⟩ := List.map_eq_cons_iff.1 hrest
    obtain ⟨hgsmall, rfl⟩ := tooSmall_of_hashFrame_error hg
    refine ⟨g, List.find?_eq_some_iff_append.2 ⟨hgsmall, frames, later, hframes,
      fun h hh => ?_⟩, sequentially_of_error hfirst⟩
    obtain ⟨x, hx⟩ := hbefore _ (List.mem_map_of_mem hh)
    cases hhsmall : h.tooSmall with
    | false => rfl
    | true =>
        rw [hashFrame_of_tooSmall hhsmall] at hx
        cases hx
  · have hnot : ¬ ∀ r ∈ arrange ((selected o d cancelled).map (hashFrame transformRow)), ∃ x,
      r = .ok x := fun hall => by
      obtain ⟨x, hx⟩ := hall _ ((harrange _).symm.subset hfailure)
      cases hx
    obtain ⟨before, e, after, heq, -, hfirst⟩ := exists_first_error hnot
    have hmem : .error e ∈ (selected o d cancelled).map (hashFrame transformRow) := by
      refine (harrange _).subset ?_
      rw [heq]
      exact List.mem_append_right before List.mem_cons_self
    obtain ⟨g, hgmem, hg⟩ := List.mem_map.1 hmem
    obtain ⟨hgsmall, rfl⟩ := tooSmall_of_hashFrame_error hg
    exact ⟨g, hgmem, hgsmall, concurrently_of_error hfirst⟩

/-- Hashing by several workers does what hashing one after the other does, in whatever order
the hashes arrive. One way gives an outcome exactly when the other one does, and then the two
agree; this is so when no selected frame is too small. Otherwise both report a selected frame
that is too small, and one after the other it is the first of them. -/
theorem concurrently_agrees (transformRow : RowTransform) (o : CreationOptions)
    (d : Decoder Float Image) (cancelled : Bool)
    (harrange : ∀ results, (arrange results).Perm results) :
    (∀ r, (sequentially transformRow o d cancelled).1 = .ok (.ok r) →
      ∃ r', concurrently transformRow o d cancelled arrange = .ok (.ok r') ∧ Agrees r r') ∧
    (∀ r', concurrently transformRow o d cancelled arrange = .ok (.ok r') →
      ∃ r, (sequentially transformRow o d cancelled).1 = .ok (.ok r) ∧ Agrees r r') ∧
    ((∀ f ∈ selected o d cancelled, f.tooSmall = false) →
      ∃ r, (sequentially transformRow o d cancelled).1 = .ok (.ok r)) ∧
    ((∃ f ∈ selected o d cancelled, f.tooSmall = true) →
      (∃ f, (selected o d cancelled).find? Frame.tooSmall = some f ∧
        (sequentially transformRow o d cancelled).1 = tooSmallResult f) ∧
      ∃ f ∈ selected o d cancelled, f.tooSmall = true ∧
        concurrently transformRow o d cancelled arrange = tooSmallResult f) := by
  by_cases hsmall : ∃ f ∈ selected o d cancelled, f.tooSmall = true
  · obtain ⟨⟨f, hf, hinOrder⟩, g, hg, hgsmall, hatOnce⟩ := tooSmall_of_small harrange hsmall
    refine ⟨fun r hr => ?_, fun r' hr' => ?_, fun hlarge => ?_, tooSmall_of_small harrange⟩
    · rw [hinOrder] at hr
      cases hr
    · rw [hatOnce] at hr'
      cases hr'
    · rw [hlarge g hg] at hgsmall
      cases hgsmall
  · have hlarge : ∀ f ∈ selected o d cancelled, f.tooSmall = false := fun f hf =>
      Bool.eq_false_iff.2 fun htrue => hsmall ⟨f, hf, htrue⟩
    obtain ⟨r, r', hinOrder, hatOnce, hagrees⟩ := agrees_of_large harrange hlarge
    refine ⟨fun q hq => ?_, fun q' hq' => ?_, fun _ => ⟨r, hinOrder⟩,
      tooSmall_of_small harrange⟩
    · rw [hinOrder] at hq
      cases hq
      exact ⟨r', hatOnce, hagrees⟩
    · rw [hatOnce] at hq'
      cases hq'
      exact ⟨r, hinOrder, hagrees⟩

def blackPixel : Image := ⟨1, 1, .gray, .bytes ⟨#[0]⟩, rfl⟩

def tinyVideo : Decoder Float Image := .ofFrames [⟨blackPixel, 0⟩, ⟨blackPixel, 1⟩] 2

def everyFrame : CreationOptions := ⟨0, 1, 1, none, none⟩

def blackSquare : Image :=
  ⟨5, 5, .gray, .bytes ⟨Array.replicate 25 0⟩, by
    simp [Samples.size, ByteArray.size, Channels.count]⟩

def steadyVideo : Decoder Float Image := .ofFrames [⟨blackSquare, 0⟩, ⟨blackSquare, 1⟩] 2

theorem drain_steadyVideo :
    let s := Sampler.ofDecoder steadyVideo everyFrame.interval false
    s.drain.1 = [.ok ⟨0, 0, blackSquare⟩, .ok ⟨1, 1, blackSquare⟩] ∧
    s.drain.2.decoded = 2 := by
  intro s
  have haccepts : s.AcceptsAll [⟨blackSquare, 0⟩, ⟨blackSquare, 1⟩] :=
    ⟨by decide +kernel, by decide +kernel, trivial⟩
  have hframes : s.drain = _ := Sampler.drain_pulling_append (s := s) rfl haccepts [] (some 2)
  have hend :=
    Sampler.drain_pulling_nil (s := s.advanceOver [⟨blackSquare, 0⟩, ⟨blackSquare, 1⟩]) rfl
      (some 2)
  have hsecond : ((s.advance 0).cadence.offer s.interval 1).1 = true := by decide +kernel
  have htakes : (s.advance 0).takes ⟨blackSquare, 1⟩ = [⟨1, 1, blackSquare⟩] := if_pos hsecond
  rw [hframes, hend, Sampler.takesFrom, Sampler.takesFrom, htakes]
  exact ⟨rfl, rfl⟩

theorem selected_steadyVideo :
    selected everyFrame steadyVideo false = [⟨0, 0, blackSquare⟩, ⟨1, 1, blackSquare⟩] := by
  rw [selected, drain_steadyVideo.1]
  rfl

/-- The video of small frames cannot be hashed. The hashes of the other video may arrive in
reverse, and make the same fingerprint as when they are made in turn. -/
theorem concurrently_tinyVideo :
    (∀ results : List (Except VideoError Feature), results.reverse.Perm results) ∧
      (sequentially cosineTransform everyFrame tinyVideo false).1 =
        .ok (.error (.cannotHash 0 (.frameTooSmall 1 1))) ∧
      (∃ f ∈ selected everyFrame tinyVideo false, f.tooSmall = true ∧
        concurrently cosineTransform everyFrame tinyVideo false List.reverse =
          tooSmallResult f) ∧
      ∃ r r', (sequentially cosineTransform everyFrame steadyVideo false).1 = .ok (.ok r) ∧
        concurrently cosineTransform everyFrame steadyVideo false List.reverse = .ok (.ok r') ∧
        Agrees r r' ∧ r.fingerprint.features.map Feature.frame = [0, 1] ∧
        r'.fingerprint.features.map Feature.frame = [0, 1] := by
  have harrange : ∀ results : List (Except VideoError Feature), results.reverse.Perm results :=
    List.reverse_perm
  let s := Sampler.ofDecoder tinyVideo everyFrame.interval false
  have hpull := (Sampler.pull_taken (some 2) [⟨.frame ⟨blackPixel, 1⟩, false⟩] (s := s)
    (a := ⟨.frame ⟨blackPixel, 0⟩, false⟩) (f := ⟨blackPixel, 0⟩) rfl rfl
      (by decide +kernel) rfl).2
  have hnext : s.next = (some (.ok ⟨0, 0, blackPixel⟩), _) := hpull
  obtain ⟨rest, hselected⟩ :
      ∃ rest, selected everyFrame tinyVideo false = ⟨0, 0, blackPixel⟩ :: rest := by
    rw [selected, Sampler.drain_of_next_some hnext]
    exact ⟨_, rfl⟩
  have hsmall : ∃ f ∈ selected everyFrame tinyVideo false, f.tooSmall = true :=
    ⟨_, hselected ▸ List.mem_cons_self, rfl⟩
  have hlarge : ∀ f ∈ selected everyFrame steadyVideo false, f.tooSmall = false := by
    rw [selected_steadyVideo]
    decide
  obtain ⟨-, -, -, hfailures⟩ :=
    concurrently_agrees cosineTransform everyFrame tinyVideo false harrange
  obtain ⟨⟨f, hf, hinOrder⟩, hatOnce⟩ := hfailures hsmall
  obtain ⟨hagrees, -, hsucceeds, -⟩ :=
    concurrently_agrees cosineTransform everyFrame steadyVideo false harrange
  obtain ⟨r, hr⟩ := hsucceeds hlarge
  obtain ⟨r', hr', hsame⟩ := hagrees r hr
  have hframes : r.fingerprint.features.map Feature.frame = [0, 1] := by
    obtain ⟨fs, hfs, horder⟩ := exists_features_selected cosineTransform hlarge
    have hinTurn := hr.symm.trans (sequentially_of_features horder hfs)
    obtain rfl := Except.ok.inj (Except.ok.inj hinTurn)
    have hnumbers : fs.map Feature.frame = _ := map_frame_of_map_hashFrame hfs
    rw [selected_steadyVideo] at hnumbers
    exact hnumbers
  refine ⟨harrange, ?_, hatOnce, r, r', hr, hr', hsame, hframes, hsame.features_eq ▸ hframes⟩
  rw [hselected] at hf
  cases hf
  exact hinOrder

end VideoFingerprint.VideoHashing
