import VideoFingerprint.Proofs.Video.Outcomes

/-!
Partial decodes. A run that is cut short, because the decoder fails or because the job is
cancelled, is a prefix of the run that is not: it decodes the frames before the cut, takes of
them what the whole run takes, and says how it was cut.
-/

namespace VideoFingerprint

variable {α π : Type}

/-! ### Disturbed decoders -/

namespace Decoder

variable {fs : List (DecodedFrame α π)} {rest : List (DecoderAnswer α π)} {duration : Option α}

@[simp] theorem duration_failingAt (d : Decoder α π) (k : ℕ) (message : String) :
    (d.failingAt k message).duration = d.duration := by
  rw [failingAt]
  split <;> rfl

theorem failingAt_append {k : ℕ} (hk : k ≤ fs.length) (message : String) :
    failingAt ⟨fs.map DecodedFrame.answer ++ rest, duration⟩ k message =
      ⟨(fs.take k).map DecodedFrame.answer ++ [⟨.failed message, false⟩], duration⟩ := by
  have hle : k ≤ (fs.map DecodedFrame.answer ++ rest).length := by
    rw [List.length_append, List.length_map]
    omega
  have htake : (fs.map DecodedFrame.answer ++ rest).take k =
      (fs.take k).map DecodedFrame.answer := by
    rw [List.take_append_of_le_length (by rwa [List.length_map]), List.map_take]
  rw [failingAt, if_pos hle, htake]

/-- A failure after the next of the answers leaves that answer as it is. -/
theorem exists_failingAt_append {k : ℕ} (hk : fs.length < k) (message : String)
    (rest : List (DecoderAnswer α π)) (duration : Option α) :
    ∃ rest', failingAt ⟨fs.map DecodedFrame.answer ++ rest, duration⟩ k message =
      ⟨fs.map DecodedFrame.answer ++ rest', duration⟩ ∧ rest'.head? = rest.head? := by
  rw [failingAt]
  split
  · rename_i hle
    obtain ⟨j, rfl⟩ : ∃ j, k = fs.length + (j + 1) := ⟨k - fs.length - 1, by omega⟩
    cases rest with
    | nil =>
        rw [List.append_nil, List.length_map] at hle
        omega
    | cons a rest =>
        refine ⟨(a :: rest).take (j + 1) ++ [⟨.failed message, false⟩], ?_, rfl⟩
        have hlength : (fs.map DecodedFrame.answer).length = fs.length := List.length_map _
        rw [← hlength, List.take_length_add_append, List.append_assoc]
  · exact ⟨rest, rfl, rfl⟩

/-- Only the answer for the last of the decoded frames changes. -/
theorem cancellingAfter_append {f : DecodedFrame α π} :
    cancellingAfter ⟨fs.map DecodedFrame.answer ++ f.answer :: rest, duration⟩
        (fs.length + 1) =
      ⟨fs.map DecodedFrame.answer ++ ⟨.frame f, true⟩ :: rest, duration⟩ := by
  have hlength : (fs.map DecodedFrame.answer).length = fs.length := List.length_map _
  have hcount :
      fs.length + 1 ≠ (fs.map DecodedFrame.answer ++ f.answer :: rest).length + 1 := by
    rw [List.length_append, hlength, List.length_cons]
    omega
  rw [cancellingAfter, if_neg hcount, List.mapIdx_append, List.mapIdx_cons, hlength]
  congr 2
  · refine List.ext_getElem List.length_mapIdx fun i hi _ => ?_
    rw [List.length_mapIdx, hlength] at hi
    rw [List.getElem_mapIdx, if_neg (by omega)]
  · congr 1
    · rw [if_pos (by omega)]
      rfl
    · refine List.ext_getElem List.length_mapIdx fun i _ _ => ?_
      rw [List.getElem_mapIdx, if_neg (by omega)]

end Decoder

namespace VideoHashing

variable {transformRow : RowTransform} {o : CreationOptions} {d : Decoder Float Image}
  {result : HashResult} {full : HashOutcome}

/-! ### The frames of a run -/

def fresh (o : CreationOptions) : Sampler Float Image := .ofDecoder ⟨[], none⟩ o.interval false

@[simp] theorem framesOf_append (items items' : List (SamplerItem Float Image)) :
    framesOf (items ++ items') = framesOf items ++ framesOf items' := List.filterMap_append

@[simp] theorem framesOf_map_ok (frames : List (Frame Float Image)) :
    framesOf (frames.map .ok) = frames := by
  rw [framesOf, List.filterMap_map]
  exact List.filterMap_some

@[simp] theorem framesOf_map_error (reasons : List (StopReason Float)) :
    framesOf (reasons.map .error) = [] := by
  rw [framesOf, List.filterMap_map]
  exact List.filterMap_eq_nil_iff.2 fun _ _ => rfl

structure Decodes (o : CreationOptions) (d : Decoder Float Image)
    (fs : List (DecodedFrame Float Image)) (rest : List (DecoderAnswer Float Image)) :
    Prop where
  decoder_eq : d = ⟨fs.map DecodedFrame.answer ++ rest, d.duration⟩
  accepts : (fresh o).AcceptsAll fs
  selected_eq : selected o d false = (fresh o).takesFrom fs
  decoded_eq : (Sampler.ofDecoder d o.interval false).drain.2.decoded = fs.length
  not_cancelled : (Sampler.ofDecoder d o.interval false).drain.2.completion? ≠ some .cancelled
  drain_eq : ∀ rest', rest'.head? = rest.head? →
    (Sampler.ofDecoder
        ⟨fs.map DecodedFrame.answer ++ rest', d.duration⟩ o.interval false).drain =
      (Sampler.ofDecoder d o.interval false).drain

theorem exists_decodes (o : CreationOptions) (hfree : ∀ a ∈ d.answers, a.cancels = false) :
    ∃ fs rest, Decodes o d fs rest := by
  obtain ⟨answers, duration⟩ := d
  obtain ⟨fs, rest, rfl, hfs, hhalts⟩ := (fresh o).exists_stretch hfree
  obtain ⟨reason?, c, cancels, hne, hrest⟩ := Sampler.exists_drain_of_halts
    (s := (fresh o).advanceOver fs) (Sampler.cancelled_advanceOver _ fs) hhalts
  have hdrain : ∀ rest', rest'.head? = rest.head? →
      (Sampler.ofDecoder
          ⟨fs.map DecodedFrame.answer ++ rest', duration⟩ o.interval false).drain =
        (((fresh o).takesFrom fs).map .ok ++ reason?.toList.map .error,
          { (fresh o).advanceOver fs with cancelled := cancels }.stop c) := by
    intro rest' hhead
    have happend := Sampler.drain_pulling_append (s := fresh o) rfl hfs rest' duration
    rw [hrest rest' hhead duration] at happend
    exact happend
  have hself := hdrain rest rfl
  refine ⟨fs, rest, rfl, hfs, ?_, ?_, ?_,
    fun rest' hhead => (hdrain rest' hhead).trans hself.symm⟩
  · rw [selected, hself, framesOf_append, framesOf_map_ok, framesOf_map_error, List.append_nil]
  · rw [hself]
    exact (Sampler.decoded_advanceOver (fresh o) fs).trans (Nat.zero_add _)
  · rw [hself]
    exact fun heq => hne (Option.some.inj heq)

/-! ### Cut runs -/

/-- A run that is cut after some decoded frames: it selects what the other run selects
of these frames. -/
structure CutAfter (o : CreationOptions) (d d' : Decoder Float Image) (count : ℕ)
    (c : Completion Float) : Prop where
  selected_eq : selected o d' false = (selected o d false).filter fun f => f.number < count
  decoded_eq : (Sampler.ofDecoder d' o.interval false).drain.2.decoded = count
  completion_eq : (Sampler.ofDecoder d' o.interval false).drain.2.completion? = some c

namespace Decodes

variable {fs : List (DecodedFrame Float Image)} {rest : List (DecoderAnswer Float Image)}
  {k : ℕ}
  (h : Decodes o d fs rest)
include h

theorem cutAfter_of_drain {d' : Decoder Float Image} {c : Completion Float}
    {items : List (SamplerItem Float Image)} {final : Sampler Float Image} (hk : k ≤ fs.length)
    (hdrain : (Sampler.ofDecoder d' o.interval false).drain = (items, final))
    (hitems : framesOf items = (fresh o).takesFrom (fs.take k))
    (hdecoded : final.decoded = ((fresh o).advanceOver (fs.take k)).decoded)
    (hcompletion : final.completion? = some c) : CutAfter o d d' k c where
  selected_eq := by
    rw [selected, hdrain, hitems, h.selected_eq, Sampler.takesFrom_take _ hk,
      show (fresh o).decoded = 0 from rfl, Nat.zero_add]
  decoded_eq := by
    rw [hdrain, hdecoded, Sampler.decoded_advanceOver, List.length_take_of_le hk]
    exact Nat.zero_add k
  completion_eq := hdrain ▸ hcompletion

theorem cutAfter_failingAt (hk : k ≤ fs.length) (message : String) :
    CutAfter o d (d.failingAt k message) k (.incomplete (.decoder message)) := by
  have hbefore : (fresh o).AcceptsAll (fs.take k) :=
    (Sampler.acceptsAll_append.1 ((List.take_append_drop k fs).symm ▸ h.accepts)).1
  have hdrain :=
    Sampler.drain_pulling_append (s := fresh o) rfl hbefore [⟨.failed message, false⟩]
      d.duration
  rw [Sampler.drain_pulling_failed (Sampler.cancelled_advanceOver _ _) rfl] at hdrain
  have hcut : d.failingAt k message =
      ⟨(fs.take k).map DecodedFrame.answer ++ [⟨.failed message, false⟩], d.duration⟩ := by
    conv => lhs; rw [h.decoder_eq, Decoder.failingAt_append hk]
  rw [hcut]
  refine h.cutAfter_of_drain hk hdrain ?_ rfl rfl
  rw [framesOf_append, framesOf_map_ok]
  exact List.append_nil _

theorem cutAfter_cancellingAfter (hk : k + 1 ≤ fs.length) :
    CutAfter o d (d.cancellingAfter (k + 1)) (k + 1) .cancelled := by
  obtain ⟨before, f, after, rfl, rfl⟩ : ∃ before f after, fs = before ++ f :: after ∧
    before.length = k :=
    ⟨fs.take k, fs[k], fs.drop (k + 1), by rw [List.getElem_cons_drop, List.take_append_drop],
      List.length_take_of_le (by omega)⟩
  have htake : (before ++ f :: after).take (before.length + 1) = before ++ [f] := by
    rw [List.take_length_add_append, List.take_succ_cons, List.take_zero]
  have hbefore : (fresh o).AcceptsAll (before ++ [f]) := by
    have haccepts := h.accepts
    rw [List.append_cons] at haccepts
    exact (Sampler.acceptsAll_append.1 haccepts).1
  have hdrain :=
    Sampler.drain_pulling_cancelling (s := fresh o) rfl hbefore
      (after.map DecodedFrame.answer ++ rest)
    d.duration
  have hcut : d.cancellingAfter (before.length + 1) = ⟨before.map DecodedFrame.answer ++
      ⟨.frame f, true⟩ :: (after.map DecodedFrame.answer ++ rest), d.duration⟩ := by
    conv => lhs; rw [h.decoder_eq, List.map_append, List.map_cons, List.append_assoc,
      List.cons_append, Decoder.cancellingAfter_append]
  rw [hcut]
  rw [← htake] at hdrain
  exact h.cutAfter_of_drain hk hdrain (framesOf_map_ok _) rfl rfl

/-- A failure planted after the last answer of a run is never seen. -/
theorem drain_failingAt (hk : fs.length < k) (message : String) :
    (Sampler.ofDecoder (d.failingAt k message) o.interval false).drain =
      (Sampler.ofDecoder d o.interval false).drain := by
  obtain ⟨rest', hrest', hhead⟩ := Decoder.exists_failingAt_append hk message rest d.duration
  rw [← h.drain_eq rest' hhead, ← hrest', ← h.decoder_eq]

/-- The decoder is asked for every frame and once more. -/
theorem length_answers :
    let s := Sampler.ofDecoder d o.interval false
    (s.trace s.callsToEnd).answers.length = fs.length + 1 := by
  intro s
  have hrun : s.run s.callsToEnd = s.drain.2 := (Sampler.returns_and_run_callsToEnd s).2
  obtain ⟨c, hc⟩ := Sampler.exists_completion_drain d o.interval false
  have hne := h.not_cancelled
  rw [hc, ne_eq, Option.some_inj] at hne
  rw [Sampler.length_answers_of_stopped (hrun ▸ hc) hne, hrun, h.decoded_eq]

end Decodes

/-! ### Features before the cut -/

/-- Hashing keeps frame numbers, so the features of the first frames are the first features. -/
theorem map_hashFrame_filter {frames : List (Frame Float Image)} {fs : List Feature} (k : ℕ)
    (h : frames.map (hashFrame transformRow) = fs.map .ok) :
    (frames.filter fun f => f.number < k).map (hashFrame transformRow) =
      (fs.filter fun x => x.frame < k).map .ok := by
  induction frames generalizing fs with
  | nil =>
      obtain rfl : fs = [] := List.map_eq_nil_iff.1 h.symm
      rfl
  | cons f frames ih =>
      obtain ⟨x, fs, rfl, hx, hfs⟩ := List.map_eq_cons_iff.1 h.symm
      have hnumber := (feature_of_hashFrame hx.symm).1
      rw [List.filter_cons, List.filter_cons, hnumber]
      split
      · rw [List.map_cons, List.map_cons, ih hfs.symm, hx]
      · exact ih hfs.symm

theorem MayGive.tells {cancelled : Bool}
    (h : MayGive transformRow o d cancelled (.ok (.ok full))) :
    Tells transformRow o d cancelled full := by
  obtain ⟨f, -, -, hsmall⟩ | ⟨r, hr, htells⟩ := h.tooSmall_or_tells
  · cases hsmall
  · cases hr
    exact htells

/-- A cut run gives an outcome where the whole run does, with the features of the frames
before the cut. -/
theorem CutAfter.exists_outcome {d' : Decoder Float Image} {count : ℕ} {c : Completion Float}
    (h : CutAfter o d d' count c) (hfull : Tells transformRow o d false full)
    (hresult : MayGive transformRow o d' false result) :
    ∃ r, result = .ok (.ok r) ∧ r.completion = c ∧ r.decoded = count ∧
      r.fingerprint.features = full.fingerprint.features.filter fun x => x.frame < count := by
  have hlarge : ∀ f ∈ selected o d' false, f.tooSmall = false := by
    intro f hf
    rw [h.selected_eq] at hf
    exact large_of_perm (List.Perm.of_eq hfull.features_eq.symm) f (List.mem_of_mem_filter hf)
  obtain ⟨r, hr, htells⟩ := hresult.exists_tells hlarge
  refine ⟨r, hr, ?_, ?_, ?_⟩
  · exact Option.some.inj (htells.completion_eq.symm.trans h.completion_eq)
  · exact htells.decoded_eq.symm.trans h.decoded_eq
  · have hfeatures := map_hashFrame_filter count hfull.features_eq
    rw [← h.selected_eq, htells.features_eq] at hfeatures
    exact List.map_injective_iff.2 (fun _ _ => Except.ok.inj) hfeatures

/-- Hashing one after the other is what a single worker does. -/
theorem sequentially_eq_concurrently (transformRow : RowTransform) (o : CreationOptions)
    (d : Decoder Float Image) (cancelled : Bool) :
    (sequentially transformRow o d cancelled).1 =
      concurrently transformRow o d cancelled id := by
  cases hresult : ((selected o d cancelled).map (hashFrame transformRow)).mapM id with
  | error e => rw [sequentially_of_error hresult, concurrently_of_error hresult]
  | ok fs => rw [sequentially_of_ok hresult, concurrently_of_ok hresult]

theorem concurrently_congr (transformRow : RowTransform) {d' : Decoder Float Image}
    {cancelled : Bool} (hduration : d'.duration = d.duration)
    (hdrain : (Sampler.ofDecoder d' o.interval cancelled).drain =
      (Sampler.ofDecoder d o.interval cancelled).drain)
      (arrange : List (Except VideoError Feature) → List (Except VideoError Feature)) :
    concurrently transformRow o d' cancelled arrange =
      concurrently transformRow o d cancelled arrange := by
  unfold concurrently
  rw [hdrain, hduration]

/-- A partial decode is a prefix of the whole one. Take a video that is hashed without being
disturbed, at once or one frame after the other. Where its decoder fails instead of giving some
frame, or where the job is cancelled with a frame, the features are those of the frames before
the cut, and the outcome says how many frames these are and how the run was cut. A failure
after the last answer that the whole run asks for changes nothing. -/
theorem partial_decode (hfree : ∀ a ∈ d.answers, a.cancels = false)
    (hfull : MayGive transformRow o d false (.ok (.ok full))) :
    let s := Sampler.ofDecoder d o.interval false
    let asked := (s.trace s.callsToEnd).answers.length
    asked = full.decoded + 1 ∧
    (∀ k message result, k ≤ full.decoded →
      MayGive transformRow o (d.failingAt k message) false result →
      ∃ r, result = .ok (.ok r) ∧ r.completion = .incomplete (.decoder message) ∧
        r.decoded = k ∧
        r.fingerprint.features = full.fingerprint.features.filter fun x => x.frame < k) ∧
    (∀ n result, 1 ≤ n → n ≤ full.decoded →
      MayGive transformRow o (d.cancellingAfter n) false result →
      ∃ r, result = .ok (.ok r) ∧ r.completion = .cancelled ∧ r.decoded = n ∧
        r.fingerprint.features = full.fingerprint.features.filter fun x => x.frame < n) ∧
    ∀ k message, asked ≤ k →
      (sequentially transformRow o (d.failingAt k message) false).1 =
        (sequentially transformRow o d false).1 ∧
      ∀ arrange, concurrently transformRow o (d.failingAt k message) false arrange =
        concurrently transformRow o d false arrange := by
  intro s asked
  have htells := hfull.tells
  obtain ⟨fs, rest, hdecodes⟩ := exists_decodes o hfree
  have hlength : full.decoded = fs.length := htells.decoded_eq.symm.trans hdecodes.decoded_eq
  have hasked : asked = fs.length + 1 := hdecodes.length_answers
  rw [hlength]
  refine ⟨hasked, fun k message result hk hresult => ?_, fun n result hone hn hresult => ?_,
    fun k message hk => ?_⟩
  · exact (hdecodes.cutAfter_failingAt hk message).exists_outcome htells hresult
  · obtain ⟨k, rfl⟩ := Nat.exists_eq_add_of_le' hone
    exact (hdecodes.cutAfter_cancellingAfter hn).exists_outcome htells hresult
  · have hsame :=
      concurrently_congr transformRow (d.duration_failingAt k message)
        (hdecodes.drain_failingAt (by omega) message)
    refine ⟨?_, hsame⟩
    rw [sequentially_eq_concurrently, sequentially_eq_concurrently, hsame]

theorem partial_decode_steadyVideo :
    (∀ a ∈ steadyVideo.answers, a.cancels = false) ∧
    ∃ full, MayGive cosineTransform everyFrame steadyVideo false (.ok (.ok full)) ∧
      full.decoded = 2 ∧ full.fingerprint.features.length = 2 ∧
      (∃ r,
        (sequentially cosineTransform everyFrame (steadyVideo.failingAt 1 "broken") false).1 =
          .ok (.ok r) ∧
        r.completion = .incomplete (.decoder "broken") ∧ r.decoded = 1 ∧
        r.fingerprint.features = full.fingerprint.features.filter fun x => x.frame < 1) ∧
      (∃ r,
        (sequentially cosineTransform everyFrame (steadyVideo.cancellingAfter 1) false).1 =
          .ok (.ok r) ∧
        r.completion = .cancelled ∧ r.decoded = 1 ∧
        r.fingerprint.features = full.fingerprint.features.filter fun x => x.frame < 1) ∧
      (sequentially cosineTransform everyFrame (steadyVideo.failingAt 3 "broken") false).1 =
        .ok (.ok full) := by
  have hfree : ∀ a ∈ steadyVideo.answers, a.cancels = false := by decide
  have hdecoded := drain_steadyVideo.2
  have hlarge : ∀ f ∈ selected everyFrame steadyVideo false, f.tooSmall = false := by
    rw [selected_steadyVideo]
    decide
  obtain ⟨full, hfull, htells⟩ :=
    (MayGive.inTurn : MayGive cosineTransform everyFrame steadyVideo false _).exists_tells
      hlarge
  have hmay : MayGive cosineTransform everyFrame steadyVideo false (.ok (.ok full)) :=
    hfull ▸ .inTurn
  have htwo : full.decoded = 2 := htells.decoded_eq.symm.trans hdecoded
  obtain ⟨hasked, hfailing, hcancelling, hlate⟩ := partial_decode hfree hmay
  refine ⟨hfree, full, hmay, htwo, ?_, hfailing 1 "broken" _ (by omega) .inTurn,
    hcancelling 1 _ le_rfl (by omega) .inTurn, ((hlate 3 "broken" (by omega)).1).trans hfull⟩
  have hlength := congrArg List.length htells.features_eq
  rw [List.length_map, List.length_map, selected_steadyVideo] at hlength
  exact hlength.symm

end VideoHashing

end VideoFingerprint
