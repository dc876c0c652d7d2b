import VideoFingerprint.Proofs.Video.Framing

/-!
Time limits of a stream. A limit only cuts a stream short: before it has passed, the stream
gives what it gives without a limit, and where it has passed, one error takes the place of all
that is left.
-/

namespace VideoFingerprint

namespace TimeLimit

variable {l l' l'' : TimeLimit}

/-- No look at the clock shows a moment after the limit. -/
def Holds (l : TimeLimit) : Prop := ∀ i, l.clock i ≤ l.moment

theorem not_holds_of_hasPassed (h : l.hasPassed = true) : ¬ l.Holds :=
  fun hholds => Int.not_lt.2 (hholds 0) (of_decide_eq_true h)

/-- What a time limit has become after some looks at the clock. -/
structure Later (l l' : TimeLimit) : Prop where
  seconds_eq : l'.seconds = l.seconds
  moment_eq : l'.moment = l.moment
  holds : l.Holds → l'.Holds

theorem Later.refl (l : TimeLimit) : l.Later l := ⟨rfl, rfl, id⟩

theorem Later.trans (h : l.Later l') (h' : l'.Later l'') : l.Later l'' :=
  ⟨h'.seconds_eq.trans h.seconds_eq, h'.moment_eq.trans h.moment_eq, h'.holds ∘ h.holds⟩

theorem later_looked (l : TimeLimit) : l.Later l.looked := ⟨rfl, rfl, fun h i => h (i + 1)⟩

end TimeLimit

/-! ### Filling a buffer under a limit -/

variable {l : TimeLimit}

theorem overdue?_of_passed (h : l.hasPassed = true) :
    overdue? (some l) = some (.timedOut l.seconds) := by
  simp [overdue?, Option.filter, h]

theorem overdue?_of_going (h : l.hasPassed = false) : overdue? (some l) = none := by
  simp [overdue?, Option.filter, h]

section Steps

variable {need : ℕ} {limit : Option TimeLimit} {rest : List OutputPiece}

theorem fill_of_overdue {e : ToolError} (h : overdue? limit = some e)
    (pieces : List OutputPiece) :
    fill (need + 1) limit pieces = ⟨.error e, limit.map TimeLimit.looked, pieces⟩ := by
  rw [fill.eq_def]
  simp only [h]

theorem fill_nil (h : overdue? limit = none) :
    fill (need + 1) limit [] = ⟨.ok [], limit.map TimeLimit.looked, []⟩ := by
  rw [fill.eq_def]
  simp only [h]

theorem fill_interrupted (h : overdue? limit = none) :
    fill (need + 1) limit (.interrupted :: rest) =
      fill (need + 1) (limit.map TimeLimit.looked) rest := by
  rw [fill.eq_def]
  simp only [h]

theorem fill_failed (h : overdue? limit = none) (kind : String) :
    fill (need + 1) limit (.failed kind :: rest) =
      ⟨.error (.io kind), limit.map TimeLimit.looked, rest⟩ := by
  rw [fill.eq_def]
  simp only [h]

theorem fill_bytes (h : overdue? limit = none) (chunk : List UInt8) :
    fill (need + 1) limit (.bytes chunk :: rest) =
      if chunk.isEmpty then ⟨.ok [], limit.map TimeLimit.looked, rest⟩
      else match chunk.drop (need + 1) with
        | [] =>
          let filling := fill (need + 1 - chunk.length) (limit.map TimeLimit.looked) rest
          { filling with bytes := filling.bytes.map (chunk ++ ·) }
        | left =>
            ⟨.ok (chunk.take (need + 1)), limit.map TimeLimit.looked,
              .bytes left :: rest⟩ := by
  rw [fill.eq_def]
  dsimp only
  generalize overdue? limit = overdue at h ⊢
  subst h
  rfl

end Steps

/-- Under a time limit a buffer is filled as without one, unless the limit has passed. -/
theorem fill_limited (need : ℕ) (l : TimeLimit) (pieces : List OutputPiece) :
    ((fill need (some l) pieces).bytes = .error (.timedOut l.seconds) ∧ ¬ l.Holds) ∨
      ∃ l', l.Later l' ∧ fill need (some l) pieces =
        ⟨(fill need none pieces).bytes, some l', (fill need none pieces).output⟩ := by
  induction pieces generalizing need l with
  | nil =>
      cases need with
      | zero => exact .inr ⟨l, .refl l, rfl⟩
      | succ need =>
          cases hpassed : l.hasPassed with
          | true =>
              rw [fill_of_overdue (overdue?_of_passed hpassed)]
              exact .inl ⟨rfl, TimeLimit.not_holds_of_hasPassed hpassed⟩
          | false =>
              rw [fill_nil (overdue?_of_going hpassed), fill_nil rfl]
              exact .inr ⟨l.looked, l.later_looked, rfl⟩
  | cons p rest ih =>
      cases need with
      | zero => exact .inr ⟨l, .refl l, rfl⟩
      | succ need =>
          cases hpassed : l.hasPassed with
          | true =>
              rw [fill_of_overdue (overdue?_of_passed hpassed)]
              exact .inl ⟨rfl, TimeLimit.not_holds_of_hasPassed hpassed⟩
          | false =>
              have hgoing := overdue?_of_going hpassed
              cases p with
              | interrupted =>
                  rw [fill_interrupted hgoing, fill_interrupted rfl]
                  exact (ih (need + 1) l.looked).imp
                    (fun h => ⟨h.1, h.2 ∘ l.later_looked.holds⟩)
                    fun ⟨l', hlater, h⟩ => ⟨l', l.later_looked.trans hlater, h⟩
              | failed kind =>
                  rw [fill_failed hgoing, fill_failed rfl]
                  exact .inr ⟨l.looked, l.later_looked, rfl⟩
              | bytes chunk =>
                  rw [fill_bytes hgoing, fill_bytes rfl]
                  split
                  · exact .inr ⟨l.looked, l.later_looked, rfl⟩
                  · split
                    · dsimp only [Option.map_some, Option.map_none]
                      rcases ih (need + 1 - chunk.length) l.looked with
                        ⟨herror, hpast⟩ | ⟨l', hlater, h⟩
                      · rw [herror]
                        exact .inl ⟨rfl, hpast ∘ l.later_looked.holds⟩
                      · rw [h]
                        exact .inr ⟨l', l.later_looked.trans hlater, rfl⟩
                    · exact .inr ⟨l.looked, l.later_looked, rfl⟩

theorem limit_fill_none (need : ℕ) (pieces : List OutputPiece) :
    (fill need none pieces).limit = none := by
  generalize hlimit : none = limit
  fun_induction fill need limit pieces <;> subst hlimit <;> simp_all +zetaDelta

/-! ### Whole streams -/

/-- All items are given, or frames from their front and then the error of a time limit. -/
def CutShort (seconds : ℕ) (all given : List (Except ToolError StreamFrame)) : Prop :=
  given = all ∨ ∃ frames : List StreamFrame, frames.map Except.ok <+: all ∧
    given = frames.map Except.ok ++ [.error (.timedOut seconds)]

theorem CutShort.cons {seconds : ℕ} {all given : List (Except ToolError StreamFrame)}
    (h : CutShort seconds all given) (x : StreamFrame) :
    CutShort seconds (.ok x :: all) (.ok x :: given) := by
  obtain rfl | ⟨frames, hfront, rfl⟩ := h
  · exact .inl rfl
  · exact .inr ⟨x :: frames, List.cons_prefix_cons.2 ⟨rfl, hfront⟩, rfl⟩

namespace FrameStream

variable {s : FrameStream} {l : TimeLimit}

def limited (s : FrameStream) (l : TimeLimit) : FrameStream := { s with limit := some l }

/-- Neither reading nor the end of the program comes after the limit. -/
def InTime (s : FrameStream) (l : TimeLimit) : Prop := l.Holds ∧ s.exit.moment ≤ l.moment

theorem InTime.later {l' : TimeLimit} (h : s.InTime l) (hlater : l.Later l') : s.InTime l' :=
  ⟨hlater.holds h.1, hlater.moment_eq ▸ h.2⟩

theorem wait_limited (hs : s.limit = none) (l : TimeLimit) :
    ((s.limited l).wait = .error (.timedOut l.seconds) ∧ ¬ s.InTime l) ∨
    (s.limited l).wait = s.wait := by
  have hwait : s.wait = s.exit.status.mapError .io := by rw [wait, hs]
  have hlimited : (s.limited l).wait = s.exit.until l.seconds l.lastMoment := rfl
  rw [hlimited, hwait, ToolExit.until]
  split
  · rename_i hlate
    refine .inl ⟨rfl, fun hintime => ?_⟩
    have hend := hintime.2
    rw [TimeLimit.lastMoment] at hlate
    omega
  · exact .inr rfl

theorem failure?_limited (hs : s.limit = none) (l : TimeLimit) :
    ((s.limited l).failure? = some (.timedOut l.seconds) ∧ ¬ s.InTime l) ∨
      (s.limited l).failure? = s.failure? := by
  rcases wait_limited hs l with ⟨hwait, hlate⟩ | hwait
  · exact .inl ⟨by rw [failure?, hwait], hlate⟩
  · exact .inr (by rw [failure?, failure?, hwait]; rfl)

theorem next_of_fill_error (hgoing : s.finished = false) {e : ToolError}
    {limit : Option TimeLimit} {rest : List OutputPiece}
    (hfill : fill s.format.frameBytes s.limit s.output = ⟨.error e, limit, rest⟩) :
    s.next = (some (.error e),
      { s with limit := limit, output := rest, finished := true }) := by
  rw [next, hgoing, hfill]
  rfl

/-- After the same bytes have been read, only the wait for the end of the program can tell a
stream with a limit from one without. -/
theorem next_limited_of_fill {l l' : TimeLimit} (hlater : l.Later l')
    (hgoing : s.finished = false) {bytes : List UInt8} {rest : List OutputPiece}
    (hfree : fill s.format.frameBytes s.limit s.output = ⟨.ok bytes, none, rest⟩)
    (hlimited : fill s.format.frameBytes (some l) s.output = ⟨.ok bytes, some l', rest⟩) :
    ((s.limited l).next.1 = some (.error (.timedOut l.seconds)) ∧ ¬ s.InTime l) ∨
      (s.limited l).next = (s.next.1, s.next.2.limited l') := by
  have hgoing' : (s.limited l).finished = false := hgoing
  rw [next_of_fill hgoing' hlimited, next_of_fill hgoing hfree]
  dsimp only
  by_cases hempty : bytes.isEmpty = true
  · rw [if_pos hempty, if_pos hempty]
    have hfailure := failure?_limited (s := { s with limit := none, output := rest }) rfl l'
    rcases hfailure with ⟨hend, hlate⟩ | hend
    · refine .inl ⟨?_, fun hintime => hlate (hintime.later hlater)⟩
      rw [← hlater.seconds_eq]
      exact congrArg (Option.map Except.error) hend
    · exact .inr (Prod.ext (congrArg (Option.map Except.error) hend) rfl)
  · rw [if_neg hempty, if_neg hempty]
    by_cases hshort : bytes.length < s.format.frameBytes
    · rw [if_pos hshort]
      exact .inr (if_pos hshort)
    · rw [if_neg hshort]
      refine .inr ((if_neg hshort).trans ?_)
      dsimp only [limited]
      cases s.format.image? bytes <;> rfl

/-- One step under a time limit gives what it gives without one, or the error of the limit. -/
theorem next_limited (hs : s.limit = none) (l : TimeLimit) :
    ((s.limited l).next.1 = some (.error (.timedOut l.seconds)) ∧ ¬ s.InTime l) ∨
      ∃ l', l.Later l' ∧ (s.limited l).next = (s.next.1, s.next.2.limited l') := by
  cases hgoing : s.finished with
  | true =>
      have hlimited : (s.limited l).finished = true := hgoing
      rw [next, next, hlimited, hgoing]
      exact .inr ⟨l, .refl l, rfl⟩
  | false =>
      have hlimited : (s.limited l).finished = false := hgoing
      have hfree := limit_fill_none s.format.frameBytes s.output
      rcases fill_limited s.format.frameBytes l s.output with
        ⟨herror, hlate⟩ | ⟨l', hlater, hfill⟩
      · rcases hoverdue : fill s.format.frameBytes (some l) s.output with ⟨bytes, limit, rest⟩
        rw [hoverdue] at herror
        obtain rfl : bytes = .error (.timedOut l.seconds) := herror
        rw [next_of_fill_error hlimited hoverdue]
        exact .inl ⟨rfl, fun hintime => hlate hintime.1⟩
      · rcases hunlimited : fill s.format.frameBytes none s.output with ⟨bytes, limit, rest⟩
        rw [hunlimited] at hfill hfree
        obtain rfl : limit = none := hfree
        have hsame : fill s.format.frameBytes s.limit s.output = ⟨bytes, none, rest⟩ := by
          rw [hs, hunlimited]
        cases bytes with
        | error e =>
            rw [next_of_fill_error hlimited hfill, next_of_fill_error hgoing hsame]
            exact .inr ⟨l', hlater, rfl⟩
        | ok bytes =>
            exact (next_limited_of_fill hlater hgoing hsame hfill).imp_right
              fun h => ⟨l', hlater, h⟩

theorem next_unlimited (hs : s.limit = none) :
    s.next.2.limit = none ∧ s.next.2.exit = s.exit := by
  have hfree := limit_fill_none s.format.frameBytes s.output
  rw [next]
  split
  · exact ⟨hs, rfl⟩
  · rw [hs]
    dsimp only
    rw [hfree]
    repeat' split
    all_goals exact ⟨rfl, rfl⟩

/-- A time limit only cuts a stream short, and one that is kept to changes nothing. -/
theorem cutShort_items (hs : s.limit = none) (l : TimeLimit) :
    CutShort l.seconds s.items (s.limited l).items ∧
      (s.InTime l → (s.limited l).items = s.items) := by
  have hlate {s : FrameStream} {l : TimeLimit}
      (h : (s.limited l).next.1 = some (.error (.timedOut l.seconds))) :
      CutShort l.seconds s.items (s.limited l).items := by
    have hnext : (s.limited l).next =
        (some (.error (.timedOut l.seconds)), (s.limited l).next.2) := Prod.ext h rfl
    rw [items_of_error hnext]
    exact .inr ⟨[], List.nil_prefix, rfl⟩
  induction s using items.induct generalizing l with
  | case1 s _ h =>
      rcases next_limited hs l with ⟨herror, hpast⟩ | ⟨l', -, hnext⟩
      · exact ⟨hlate herror, fun hintime => absurd hintime hpast⟩
      · have hsame : (s.limited l).items = s.items := by
          rw [h] at hnext
          rw [items_of_none h, items_of_none hnext]
        exact ⟨.inl hsame, fun _ => hsame⟩
  | case2 s e _ h =>
      rcases next_limited hs l with ⟨herror, hpast⟩ | ⟨l', -, hnext⟩
      · exact ⟨hlate herror, fun hintime => absurd hintime hpast⟩
      · have hsame : (s.limited l).items = s.items := by
          rw [h] at hnext
          rw [items_of_error h, items_of_error hnext]
        exact ⟨.inl hsame, fun _ => hsame⟩
  | case3 s x s' h ih =>
      rcases next_limited hs l with ⟨herror, hpast⟩ | ⟨l', hlater, hnext⟩
      · exact ⟨hlate herror, fun hintime => absurd hintime hpast⟩
      · have hkept := next_unlimited hs
        rw [h] at hnext hkept
        obtain ⟨hcut, hintime⟩ := ih hkept.1 l'
        rw [items_of_frame h, items_of_frame hnext, ← hlater.seconds_eq]
        refine ⟨hcut.cons x, fun hs' => congrArg _ (hintime ?_)⟩
        obtain ⟨hholds, hend⟩ := hs'.later hlater
        exact ⟨hholds, hkept.2 ▸ hend⟩

/-- So is the stream of a run: if the clock never shows a moment after the limit and the
program ends before it, the limit might as well not be there. -/
theorem items_ofRun_limited (f : StreamFormat) (l : TimeLimit) (r : ToolRun) :
    CutShort l.seconds (ofRun f none r).items (ofRun f (some l) r).items ∧
      (l.Holds → r.exit.moment ≤ l.moment →
        (ofRun f (some l) r).items = (ofRun f none r).items) := by
  obtain ⟨hcut, hintime⟩ := cutShort_items (s := ofRun f none r) rfl l
  exact ⟨hcut, fun hholds hend => hintime ⟨hholds, hend⟩⟩

end FrameStream

end VideoFingerprint
