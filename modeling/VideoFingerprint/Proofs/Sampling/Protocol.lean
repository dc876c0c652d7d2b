import VideoFingerprint.Proofs.Sampling.Rounds

/-!
The protocol of a sampler, as its caller sees it: frames, then at most one reason for stopping,
then nothing; a completion that says which end was met and stays; and frames in order. It holds
of every run, whatever the decoder answers and whenever the job is cancelled.
-/

namespace VideoFingerprint

variable {π : Type}

namespace Sampler

open SamplerTrace

variable {d : Decoder Float π} {before : Bool} {t : SamplerTrace Float π} {s : Sampler Float π}

/-! ### What a caller sees -/

theorem completion?_of_running {answers : List (DecoderAnswer Float π)}
    {duration : Option Float} (hs : s.status = .running ⟨answers, duration⟩) :
    s.completion? = none := by
  rw [completion?, hs]

theorem completion?_eq_some_iff {c : Completion Float} :
    s.completion? = some c ↔ s.status = .stopped c := by
  unfold completion?
  cases s.status <;> simp

/-- A stopped sampler stays as it is and asks no decoder. -/
theorem silent_of_stopped {c : Completion Float} (hs : s.status = .stopped c)
    (calls : List SamplerCall) :
    (s.run calls).status = .stopped c ∧ ∀ e ∈ s.trace calls, silent e := by
  induction calls generalizing s with
  | nil => exact ⟨hs, fun e he => by cases he⟩
  | cons call calls ih =>
      cases call with
      | cancel =>
          obtain ⟨hstatus, hsilent⟩ := ih (s := s.cancel) hs
          refine ⟨hstatus, fun e he => ?_⟩
          rcases List.mem_cons.1 he with rfl | he
          · exact Or.inl rfl
          · exact hsilent e he
      | next =>
          have hnext : s.next = (none, s) := by rw [next, hs]
          obtain ⟨hstatus, hsilent⟩ := ih hs
          have hcall : s.call .next = s := congrArg Prod.snd hnext
          have hevents : s.eventsOf .next = [.returned none] := by
            rw [eventsOf, hs, hnext]; rfl
          rw [trace, hevents, hcall]
          refine ⟨by rwa [Sampler.run, List.foldl_cons, hcall], fun e he => ?_⟩
          rcases List.mem_cons.1 he with rfl | he
          · exact Or.inr rfl
          · exact hsilent e he

/-- Nothing is asked and nothing yielded in silence. -/
theorem silent_projections {rest : SamplerTrace Float π} (h : ∀ e ∈ rest, silent e) :
    rest.answers = [] ∧ (∀ found, rest.cancelledWhenAsking found = []) ∧
      ∃ k, rest.items = List.replicate k none := by
  induction rest with
  | nil => exact ⟨rfl, fun _ => rfl, 0, rfl⟩
  | cons e rest ih =>
      obtain ⟨hanswers, hasked, k, hitems⟩ :=
        ih fun e' he' => h e' (List.mem_cons_of_mem e he')
      rcases h e List.mem_cons_self with rfl | rfl
      · exact ⟨hanswers, fun found => hasked (found || true), k, by simpa using hitems⟩
      · exact ⟨hanswers, fun found => hasked (found || false),
          k + 1, by simpa [List.replicate_succ] using hitems⟩

/-- What a caller sees: the items returned, the completion once there is one, and the number of
decoded frames. -/
structure Report (before : Bool) (t : SamplerTrace Float π) (count : ℕ)
    (completion? : Option (Completion Float)) :
    Prop where
  items : ∃ (reason? : Option (StopReason Float)) (k : ℕ),
    t.items = t.taken.map (fun f => some (.ok f)) ++
    reason?.toList.map (fun e => some (.error e)) ++ List.replicate k none ∧
    (∀ e, completion? = some (.incomplete e) ↔ reason? = some e) ∧
    (completion? = none ↔ reason? = none ∧ k = 0)
  complete_iff : completion? = some .complete ↔ ∃ a ∈ t.answers, a.pull = .finished
  cancelled_iff : completion? = some .cancelled ↔ true ∈ t.cancelledWhenAsking before
  count_eq : count = countAcceptable 0 t.decoded
  frames : ∃ (fs : List (DecodedFrame Float π)) (last : Float) (origin : Option Float),
    fs <+: t.decoded ∧ FramesSeen fs count last origin ∧ Chosen fs t.taken

theorem Going.report (h : Going d before t s) : Report before t s.decoded none where
  items := ⟨none, 0, by simpa using h.items_eq, by simp, by simp⟩
  complete_iff := by
    simp only [reduceCtorEq, false_iff]
    rintro ⟨a, ha, hfinished⟩
    have hmem : Pull.finished ∈ t.answers.map DecoderAnswer.pull :=
      List.mem_map.2 ⟨a, ha, hfinished⟩
    rw [h.answers_eq] at hmem
    obtain ⟨f, -, hf⟩ := List.mem_map.1 hmem
    cases hf
  cancelled_iff := by
    simp only [reduceCtorEq, false_iff]
    exact fun hmem => Bool.noConfusion (h.asked true hmem)
  count_eq := by rw [h.seen.count_eq, h.seen.acceptable]
  frames := ⟨t.decoded, _, _, List.prefix_refl _, h.seen, h.chosen⟩

theorem Ended.report (h : Ended d before t s) :
    ∃ c, s.status = .stopped c ∧ Report before t s.decoded (some c) := by
  obtain ⟨start, last, rest, s', c, rfl, hgoing, hending, -, hrest, hs, hcount⟩ := h
  refine ⟨c, hs, ?_⟩
  have hcomplete : ∀ a ∈ start.answers, a.pull ≠ .finished := by
    simpa using hgoing.report.complete_iff
  have hasked : true ∉ start.cancelledWhenAsking before := by
    simpa using hgoing.report.cancelled_iff
  have hcounted := hgoing.report.count_eq
  obtain ⟨hanswers, hunasked, k, hitems⟩ := silent_projections hrest
  have htaken : rest.taken = [] := by simp [SamplerTrace.taken, hitems]
  have hdecoded : rest.decoded = [] := by simp [SamplerTrace.decoded, hanswers]
  have hframes : ∀ u : SamplerTrace Float π, u.taken = [] →
      ∃ (fs : List (DecodedFrame Float π)) (latest : Float) (origin : Option Float),
        fs <+: (start ++ u ++ rest).decoded ∧ FramesSeen fs s'.decoded latest origin ∧
          Chosen fs (start ++ u ++ rest).taken := by
    intro u hu
    refine ⟨start.decoded, _, _, by simp, hgoing.seen, ?_⟩
    simpa [hu, htaken] using hgoing.chosen
  rw [hcount]
  cases hending with
  | refused hfound =>
      refine ⟨⟨none, k + 1, ?_, by simp, by simp⟩, ?_, ?_, ?_, hframes _ rfl⟩
      · simp [hgoing.items_eq, hitems, htaken, List.replicate_succ]
      · simpa [hanswers] using hcomplete
      · simp [hfound]
      · simpa [hdecoded] using hcounted
  | finished hfound a ha =>
      refine ⟨⟨none, k + 1, ?_, by simp, by simp⟩, ?_, ?_, ?_, hframes _ rfl⟩
      · simp [hgoing.items_eq, hitems, htaken, List.replicate_succ]
      · exact ⟨fun _ => ⟨a, by simp, ha⟩, fun _ => rfl⟩
      · simpa [hfound, hunasked] using hasked
      · simpa [hdecoded, ha] using hcounted
  | failed hfound a message ha =>
      refine ⟨⟨some (.decoder message), k, ?_, by simp [eq_comm], by simp⟩, ?_, ?_, ?_,
        hframes _ rfl⟩
      · simp [hgoing.items_eq, hitems, htaken, Except.toOption]
      · simpa [hanswers, ha] using hcomplete
      · simpa [hfound, hunasked] using hasked
      · simpa [hdecoded, ha] using hcounted
  | badTime hfound a f ha hf reason hreason =>
      refine ⟨⟨some reason, k, ?_, by simp, by simp⟩, ?_, ?_, ?_, hframes _ rfl⟩
      · simp [hgoing.items_eq, hitems, htaken, Except.toOption]
      · simpa [hanswers, ha] using hcomplete
      · simpa [hfound, hunasked] using hasked
      · simpa [hdecoded, ha, countAcceptable_append_singleton, hf] using hcounted

theorem exists_report (d : Decoder Float π) (seconds : Float) (before : Bool)
    (calls : List SamplerCall) :
    let s := (ofDecoder d seconds before).run calls
    Report before ((ofDecoder d seconds before).trace calls) s.decoded s.completion? := by
  intro s
  rcases holds_ofDecoder d seconds before calls with hgoing | hended
  · obtain ⟨rest, hs, -⟩ := hgoing.status
    rw [completion?_of_running hs]
    exact hgoing.report
  · obtain ⟨c, hs, hreport⟩ := hended.report
    rwa [completion?_eq_some_iff.2 hs]

theorem answers_prefix (d : Decoder Float π) (seconds : Float) (before : Bool)
    (calls : List SamplerCall) :
    ((ofDecoder d seconds before).trace calls).answers <+: d.answers ++
      [⟨.finished, false⟩] := by
  rcases holds_ofDecoder d seconds before calls with
    hgoing | ⟨start, last, rest, -, -, heq, -, -, hanswers, hrest, -⟩
  · obtain ⟨rest, -, hd⟩ := hgoing.status
    rw [hd, List.append_assoc]
    exact List.prefix_append _ _
  · rw [heq, answers_append, answers_append, (silent_projections hrest).1, List.append_nil]
    exact hanswers

theorem Report.completion?_eq_none_iff {count : ℕ} {completion? : Option (Completion Float)}
    (h : Report before t count completion?) :
    completion? = none ↔ ∀ item ∈ t.items, ∃ f, item = some (.ok f) := by
  obtain ⟨reason?, k, hitems, -, hnone⟩ := h.items
  rw [hnone, hitems]
  constructor
  · rintro ⟨rfl, rfl⟩ item hitem
    obtain ⟨f, -, rfl⟩ := List.mem_map.1 (by simpa using hitem)
    exact ⟨f, rfl⟩
  · intro hall
    constructor
    · cases reason? with
      | none => rfl
      | some e => simpa using hall (some (.error e)) (by simp)
    · by_contra hk
      simpa using hall none (by simp [hk])

theorem Report.completion?_eq_incomplete_iff {count : ℕ}
    {completion? : Option (Completion Float)} (h : Report before t count completion?)
    (e : StopReason Float) :
    completion? = some (.incomplete e) ↔ some (.error e) ∈ t.items := by
  obtain ⟨reason?, k, hitems, hreason, -⟩ := h.items
  rw [hreason, hitems]
  simp [eq_comm]

/-- Every frame that was taken stands in its place among the decoded frames, and
they are in order. -/
theorem Report.taken_ordered {count : ℕ} {completion? : Option (Completion Float)}
    (h : Report before t count completion?) :
    (∀ f ∈ t.taken, t.decoded[f.number]? = some ⟨f.image, f.time⟩ ∧
      Feature.timeInRange f.time = true) ∧
      t.taken.Pairwise fun f g => f.number < g.number ∧ f.time ≤ g.time := by
  obtain ⟨fs, last, origin, ⟨rest, hrest⟩, hseen, hchosen⟩ := h.frames
  refine ⟨fun f hf => ?_, (pairwise_numbered hseen.rising).sublist hchosen.sublist⟩
  have hplace := getElem?_number_of_mem_numbered (hchosen.sublist.subset hf)
  refine ⟨?_, (hseen.times _ (List.mem_of_getElem? hplace)).1⟩
  obtain ⟨hlt, -⟩ := List.getElem?_eq_some_iff.1 hplace
  rw [← hrest, List.getElem?_append_left hlt, hplace]

theorem Report.head?_taken {count : ℕ} {completion? : Option (Completion Float)}
    (h : Report before t count completion?) (hpos : 0 < count) :
    ∃ f, t.decoded.head? = some f ∧ t.taken.head? = some ⟨0, f.time, f.image⟩ := by
  obtain ⟨fs, last, origin, ⟨rest, hrest⟩, hseen, hchosen⟩ := h.frames
  rw [← hrest, hchosen.head_eq]
  cases fs with
  | nil => exact absurd hseen.count_eq hpos.ne'
  | cons f fs => exact ⟨f, rfl, by simp [numbered]⟩

/-- The protocol of every run, for any answers of the decoder, any interval and any
cancellations. The items are frames, then at most one reason for stopping, then nothing.
The completion is there from the call on that returns no frame, says which of the ends
was met, and stays; from then on the decoder is gone and not asked. The frames that were
taken stand in their places among the decoded ones, the first one is among them, and
their times are in order. -/
theorem run_protocol (d : Decoder Float π) (seconds : Float) (before : Bool)
    (calls : List SamplerCall) :
    let s := (ofDecoder d seconds before).run calls
    let t := (ofDecoder d seconds before).trace calls
    let items := (ofDecoder d seconds before).returns calls
    let frames := items.filterMap fun item => item.bind Except.toOption
    (∃ (reason? : Option (StopReason Float)) (k : ℕ),
      items = frames.map (fun f => some (.ok f)) ++
        reason?.toList.map (fun e => some (.error e)) ++ List.replicate k none) ∧
    t.answers <+: d.answers ++ [⟨.finished, false⟩] ∧
    (s.completion? = none ↔ ∀ item ∈ items, ∃ f, item = some (.ok f)) ∧
    (∀ e, s.completion? = some (.incomplete e) ↔ some (.error e) ∈ items) ∧
    (s.completion? = some .complete ↔ ∃ a ∈ t.answers, a.pull = .finished) ∧
    (s.completion? = some .cancelled ↔ true ∈ t.cancelledWhenAsking before) ∧
    (∀ c, s.completion? = some c → s.duration? = none ∧ ∀ more,
      ((ofDecoder d seconds before).run (calls ++ more)).completion? = some c ∧
      ∃ rest, (ofDecoder d seconds before).trace (calls ++ more) = t ++ rest ∧
        ∀ e ∈ rest, silent e) ∧
    s.decoded = countAcceptable 0 t.decoded ∧
    (∀ f ∈ frames, t.decoded[f.number]? = some ⟨f.image, f.time⟩ ∧ f.time.isFinite = true ∧
      0 ≤ f.time) ∧
    (frames.Pairwise fun f g => f.number < g.number ∧ f.time ≤ g.time) ∧
    (0 < s.decoded → ∃ f, t.decoded.head? = some f ∧
      frames.head? = some ⟨0, f.time, f.image⟩) := by
  intro s t items frames
  have hreport : Report before t s.decoded s.completion? :=
    exists_report d seconds before calls
  have hitems : t.items = items := items_trace _ calls
  have hframes : t.taken = frames := by rw [SamplerTrace.taken, hitems]
  obtain ⟨hplaces, hordered⟩ := hreport.taken_ordered
  rw [hframes] at hplaces hordered
  refine ⟨?_, answers_prefix d seconds before calls, ?_,
    fun e => ?_, hreport.complete_iff, hreport.cancelled_iff,
    fun c hc => ?_, hreport.count_eq, fun f hf => ?_, hordered, fun hpos => ?_⟩
  · obtain ⟨reason?, k, heq, -⟩ := hreport.items
    exact ⟨reason?, k, by rw [← hitems, heq, hframes]⟩
  · rw [← hitems]
    exact hreport.completion?_eq_none_iff
  · rw [← hitems]
    exact hreport.completion?_eq_incomplete_iff e
  · have hs := completion?_eq_some_iff.1 hc
    refine ⟨by rw [duration?, hs], fun more => ?_⟩
    obtain ⟨hstatus, hsilent⟩ := silent_of_stopped hs more
    rw [run_append, trace_append]
    exact ⟨completion?_eq_some_iff.2 hstatus, s.trace more, rfl, hsilent⟩
  · obtain ⟨hplace, hrange⟩ := hplaces f hf
    exact ⟨hplace, (of_decide_eq_true hrange).1, nonneg_of_timeInRange hrange⟩
  · rw [← hframes]
    exact hreport.head?_taken hpos

end Sampler

end VideoFingerprint
