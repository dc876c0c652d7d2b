import VideoFingerprint.Proofs.Sampling.Protocol

/-!
Running a sampler to the end. All items together are what repeated calls return, so what holds
of every run holds of them.
-/

namespace VideoFingerprint.Sampler

variable {α π : Type} [Scalar α] {s s' : Sampler α π}

theorem drain_of_next_none (h : s.next = (none, s')) : s.drain = ([], s') := by
  rw [drain]
  split
  · simp_all
  · simp_all

theorem drain_of_next_some {item : SamplerItem α π} (h : s.next = (some item, s')) :
    s.drain = (item :: s'.drain.1, s'.drain.2) := by
  rw [drain]
  split
  · simp_all
  · simp_all

def callsToEnd (s : Sampler α π) : List SamplerCall :=
  List.replicate (s.drain.1.length + 1) .next

/-- Running to the end is calling until nothing is returned. -/
theorem returns_and_run_callsToEnd (s : Sampler α π) :
    s.returns s.callsToEnd = s.drain.1.map some ++ [none] ∧
    s.run s.callsToEnd = s.drain.2 := by
  induction s using Sampler.drain.induct with
  | case1 s s' h =>
      rw [callsToEnd, drain_of_next_none h]
      constructor
      · rw [List.length_nil, List.replicate_one, returns, returns, h]
        rfl
      · rw [List.length_nil, List.replicate_one, run, List.foldl_cons, call, h]
        rfl
  | case2 s item s' h items final hrest ih =>
      obtain ⟨hreturns, hrun⟩ := ih
      have hcalls : s.callsToEnd = .next :: s'.callsToEnd := by
        rw [callsToEnd, drain_of_next_some h, List.length_cons, List.replicate_succ]
        rfl
      rw [hcalls, drain_of_next_some h]
      constructor
      · rw [returns, h, hreturns]
        rfl
      · rw [← hrun, run, List.foldl_cons, call, h]
        rfl

/-- A sampler that has been run to the end knows how it stopped. -/
theorem exists_completion_drain (d : Decoder Float π) (seconds : Float) (before : Bool) :
    ∃ c, (ofDecoder d seconds before).drain.2.completion? = some c := by
  set s := ofDecoder d seconds before with hs
  obtain ⟨hreturns, hrun⟩ := returns_and_run_callsToEnd s
  have hreport := exists_report d seconds before s.callsToEnd
  rw [← hs, hrun] at hreport
  refine Option.ne_none_iff_exists'.1 fun hnone => ?_
  have hitems := hreport.completion?_eq_none_iff.1 hnone none
  rw [items_trace, hreturns] at hitems
  obtain ⟨f, hf⟩ := hitems (List.mem_append_right _ List.mem_cons_self)
  cases hf

/-- Before it stops, a decoder gives an answer for each decoded frame and one more, unless the
job is found cancelled. -/
theorem length_answers_of_stopped {d : Decoder Float π} {seconds : Float} {before : Bool}
    {calls : List SamplerCall} {c : Completion Float}
    (hc : ((ofDecoder d seconds before).run calls).completion? = some c)
    (hne : c ≠ .cancelled) :
    ((ofDecoder d seconds before).trace calls).answers.length =
      ((ofDecoder d seconds before).run calls).decoded + 1 := by
  rcases holds_ofDecoder d seconds before calls with
    hgoing | ⟨start, last, rest, s', c', heq, hgoing, hending, -, hrest, hstatus, hcount⟩
  · obtain ⟨rest, hstatus, -⟩ := hgoing.status
    rw [completion?_of_running hstatus] at hc
    cases hc
  · have hstart : start.answers.length = s'.decoded := by
      have hlength := congrArg List.length hgoing.answers_eq
      rw [List.length_map, List.length_map] at hlength
      rw [hlength, hgoing.seen.count_eq]
    obtain rfl : c' = c := Option.some.inj ((completion?_eq_some_iff.2 hstatus).symm.trans hc)
    have hlast : last.answers.length = 1 := by
      cases hending with
      | refused => exact absurd rfl hne
      | finished => rfl
      | failed => rfl
      | badTime => rfl
    rw [heq, SamplerTrace.answers_append, SamplerTrace.answers_append,
      (silent_projections hrest).1, List.append_nil, List.length_append, hstart, hlast, hcount]

/-- The frames of a whole video, in decode order and with times that do not fall. -/
theorem drain_ordered (d : Decoder Float π) (seconds : Float) (before : Bool) :
    let frames := (ofDecoder d seconds before).drain.1.filterMap Except.toOption
    (frames.Pairwise fun f g => f.number < g.number ∧ f.time ≤ g.time) ∧
      ∀ f ∈ frames, Feature.timeInRange f.time = true := by
  intro frames
  obtain ⟨hreturns, -⟩ := returns_and_run_callsToEnd (ofDecoder d seconds before)
  have htaken :
      ((ofDecoder d seconds before).trace (ofDecoder d seconds before).callsToEnd).taken =
        frames := by
    rw [SamplerTrace.taken, items_trace, hreturns, List.filterMap_append, List.filterMap_map]
    exact List.append_nil _
  obtain ⟨hplaces, hordered⟩ := (exists_report d seconds before _).taken_ordered
  rw [htaken] at hplaces hordered
  exact ⟨hordered, fun f hf => (hplaces f hf).2⟩

end VideoFingerprint.Sampler
