import VideoFingerprint.Decimal.Fixed
import VideoFingerprint.Proofs.Decimal.Reading

/-!
Numbers with a fixed count of decimals. Writing a double with some decimals and reading it
again rounds twice, to the decimals and back to a double, and the double that comes out is
written with the same digits: it is at least as near to them as the double they were made from.
Where the doubles are farther apart than the decimals, and at ties, this argument needs nothing
more.
-/

namespace VideoFingerprint.Decimal

open Binary64

variable {places : ℕ} {x y : Float}

theorem fixed_eq_signed (places : ℕ) (hx : x.isFinite = true) :
    fixed places x =
      String.ofList (signed (isNegative x)
        (pointed (digitsOf (lastPlaceUnits places x)) places)) := by
  rw [fixed, fixedSize, isNaN_eq_false hx, isInf_eq_false hx]
  rfl

def ofLastPlace (places n : ℕ) : Decimal := ⟨n, -(places : ℤ)⟩

@[simp] theorem num_ofLastPlace (places n : ℕ) : (ofLastPlace places n).num = n * unit := by
  simp [num, ofLastPlace]

@[simp] theorem den_ofLastPlace (places n : ℕ) : (ofLastPlace places n).den = 10 ^ places := by
  simp [den, ofLastPlace]

/-- The double that a number with `places` decimals is read as. -/
def settled (places : ℕ) (x : Float) : Float :=
  ofPattern (isNegative x) (ofLastPlace places (lastPlaceUnits places x)).nearestPattern

theorem literal?_fixed (places : ℕ) (hx : x.isFinite = true) :
    literal? (fixed places x) = some (settled places x) := by
  rw [fixed_eq_signed places hx, (writes_pointed _ places).literal?]
  rfl

/-! ### Rounding twice -/

/-- A double written with decimals and read again is written with the same digits. -/
theorem rounds_again {a b n den : ℕ} (hn : Rounds id (patternMagnitude a * den) unit n)
    (hb : Rounds patternMagnitude (n * unit) den b) :
    Rounds id (patternMagnitude b * den) unit n := by
  have hcloser := hb.closest strictMono_patternMagnitude a
  rw [rounds_id_iff, abs_sub_comm] at hn ⊢
  push_cast at hcloser hn ⊢
  refine ⟨by linarith [hn.1], fun htie => hn.2 ?_⟩
  linarith [hn.1]

theorem lt_infinityPattern_of_rounds {a b n den : ℕ} (hden : 0 < den)
    (ha : a < infinityPattern) (hn : Rounds id (patternMagnitude a * den) unit n)
    (hb : Rounds patternMagnitude (n * unit) den b) : b < infinityPattern := by
  by_contra hge
  have hcloser := hb.closest strictMono_patternMagnitude a
  rw [rounds_id_iff, abs_sub_comm] at hn
  push_cast at hcloser hn
  have hlast : patternMagnitude (infinityPattern - 1) + unit <
      patternMagnitude infinityPattern := by
    decide +kernel
  have hbelow : patternMagnitude a ≤ patternMagnitude (infinityPattern - 1) :=
    strictMono_patternMagnitude.monotone (by omega)
  have habove : patternMagnitude infinityPattern ≤ patternMagnitude b :=
    strictMono_patternMagnitude.monotone (by omega)
  have hfar : (patternMagnitude a * den + unit : ℤ) < patternMagnitude b * den := by
    have : (patternMagnitude a + unit + 1) * den ≤ patternMagnitude b * den :=
      Nat.mul_le_mul_right den (by omega)
    have hle : unit ≤ unit * den := Nat.le_mul_of_pos_right unit hden
    rw [add_mul, add_mul, one_mul] at this
    exact_mod_cast (by omega : patternMagnitude a * den + unit < patternMagnitude b * den)
  have hdist₁ := le_abs_self ((patternMagnitude b * den : ℤ) - n * unit)
  have hdist₂ := neg_abs_le ((patternMagnitude a * den : ℤ) - n * unit)
  linarith [hn.1]

/-! ### Reading back -/

theorem rounds_lastPlaceUnits (places : ℕ) (x : Float) :
    Rounds id (patternMagnitude (pattern x) * 10 ^ places) unit (lastPlaceUnits places x) :=
  rounds_divHalfEven _ unit_pos

/-- What the decimals of a finite double are rounded to is finite. -/
theorem readsAs_settled (places : ℕ) (hx : x.isFinite = true) :
    (ofLastPlace places (lastPlaceUnits places x)).ReadsAs (pattern (settled places x)) ∧
      pattern (settled places x) < infinityPattern ∧
      isNegative (settled places x) = isNegative x := by
  rw [isFinite_iff] at hx
  set d := ofLastPlace places (lastPlaceUnits places x) with hd
  have hround : d.ReadsAs (unboundedPattern d.num d.den) := rounds_unboundedPattern d.den_pos
  have hfin : unboundedPattern d.num d.den < infinityPattern := by
    refine lt_infinityPattern_of_rounds (by positivity : 0 < 10 ^ places) hx
      (rounds_lastPlaceUnits places x) ?_
    simpa [ReadsAs, hd] using hround
  have hpattern : d.nearestPattern = unboundedPattern d.num d.den :=
    hround.nearestPattern_eq hfin.le
  rw [settled, ← hd, hpattern, pattern_ofPattern hfin.le, isNegative_ofPattern hfin.le]
  exact ⟨hround, hfin, rfl⟩

theorem isFinite_settled (places : ℕ) (hx : x.isFinite = true) :
    (settled places x).isFinite = true :=
  isFinite_iff.2 (readsAs_settled places hx).2.1

theorem lastPlaceUnits_settled (places : ℕ) (hx : x.isFinite = true) :
    lastPlaceUnits places (settled places x) = lastPlaceUnits places x := by
  obtain ⟨hround, -, -⟩ := readsAs_settled places hx
  rw [ReadsAs, num_ofLastPlace, den_ofLastPlace] at hround
  exact (rounds_lastPlaceUnits places _).index_eq strictMono_id
    (rounds_again (rounds_lastPlaceUnits places x) hround) unit_pos unit_pos rfl

theorem fixed_settled (places : ℕ) (hx : x.isFinite = true) :
    fixed places (settled places x) = fixed places x := by
  rw [fixed_eq_signed places (isFinite_settled places hx), fixed_eq_signed places hx,
    lastPlaceUnits_settled places hx, (readsAs_settled places hx).2.2]

/-- Rounding keeps the order, although different numbers may become equal. -/
theorem pattern_settled_mono (places : ℕ) (hx : x.isFinite = true) (hy : y.isFinite = true)
    (h : pattern x ≤ pattern y) : pattern (settled places x) ≤ pattern (settled places y) := by
  have hsize : patternMagnitude (pattern x) ≤ patternMagnitude (pattern y) :=
    strictMono_patternMagnitude.monotone h
  have hunits : lastPlaceUnits places x ≤ lastPlaceUnits places y :=
    (rounds_lastPlaceUnits places x).index_le strictMono_id (rounds_lastPlaceUnits places y)
      unit_pos unit_pos
      (Nat.mul_le_mul_right _ (Nat.mul_le_mul_right _ hsize))
  refine (readsAs_settled places hx).1.index_le strictMono_patternMagnitude
    (readsAs_settled places hy).1
    (den_pos _) (den_pos _) ?_
  rw [num_ofLastPlace, den_ofLastPlace, num_ofLastPlace, den_ofLastPlace]
  exact Nat.mul_le_mul_right _ (Nat.mul_le_mul_right _ hunits)

theorem pattern_settled_eq_zero (places : ℕ) (h : pattern x = 0) :
    pattern (settled places x) = 0 := by
  have hx : x.isFinite = true := by rw [isFinite_iff, h]; decide
  have hunits : lastPlaceUnits places x = 0 := by
    have hround := rounds_lastPlaceUnits places x
    rw [h, patternMagnitude_zero, zero_mul] at hround
    exact hround.index_eq strictMono_id (.refl strictMono_id unit_pos 0) unit_pos unit_pos
      (by simp)
  have hround := (readsAs_settled places hx).1
  rw [hunits] at hround
  exact hround.index_eq strictMono_patternMagnitude
    (.refl strictMono_patternMagnitude Nat.one_pos 0)
    (den_pos _) Nat.one_pos (by simp)

end VideoFingerprint.Decimal
