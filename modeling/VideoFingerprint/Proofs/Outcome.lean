import Mathlib.Data.List.Forall2

/-!
Computations that may fail: when they succeed or fail, if they are put together from others.
-/

namespace VideoFingerprint.Outcome

variable {ε α β : Type} {x : Except ε α} {a : α} {b : β} {e : ε}

theorem bind_eq_ok_iff {next : α → Except ε β} :
    x >>= next = .ok b ↔ ∃ a, x = .ok a ∧ next a = .ok b := by
  cases x <;> simp [bind, Except.bind]

theorem map_eq_ok_iff {f : α → β} : x.map f = .ok b ↔ ∃ a, x = .ok a ∧ f a = b := by
  cases x <;> simp [Except.map]

theorem map_eq_error_iff {f : α → β} : x.map f = .error e ↔ x = .error e := by
  cases x <;> simp [Except.map]

theorem toOption_eq_some_iff : x.toOption = some a ↔ x = .ok a := by
  cases x <;> simp [Except.toOption]

theorem mapM_eq_ok_iff {f : α → Except ε β} {as : List α} {bs : List β} :
    as.mapM f = .ok bs ↔ List.Forall₂ (fun a b => f a = .ok b) as bs := by
  induction as generalizing bs with
  | nil => simp [pure, Except.pure, eq_comm]
  | cons a as ih =>
      simp only [List.mapM_cons, bind_eq_ok_iff, ih, List.forall₂_cons_left_iff]
      constructor
      · rintro ⟨b, hb, bs', hbs, h⟩
        cases h
        exact ⟨b, bs', hb, hbs, rfl⟩
      · rintro ⟨b, bs', hb, hbs, rfl⟩
        exact ⟨b, hb, bs', hbs, rfl⟩

/-- A computation within another one whose result passes a test. -/
theorem exists_ok_of_any {δ : Type} {y : Except δ (Except ε α)} {p : α → Bool}
    (h : (y.toOption.bind Except.toOption).any p = true) :
    ∃ a, y = .ok (.ok a) ∧ p a = true := by
  rcases y with abort | e | a
  · cases h
  · cases h
  · exact ⟨a, rfl, h⟩

end VideoFingerprint.Outcome
