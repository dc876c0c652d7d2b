import Mathlib
import VideoFingerprint.Number.Binary64

/-!
Doubles and their patterns. A double is its sign and its pattern: every sign and every pattern
up to infinity belong to a double, and comparing doubles is comparing patterns with a sign,
where both zeros are one number.
-/

namespace VideoFingerprint.Binary64

open Float.Model Float.Model.UnpackedFloat

/-! ### The fields of a bit pattern -/

theorem toNat_unpackMantissa (v : BitVec Format.binary64.numBits) :
    (@unpackMantissa .binary64 v).toNat = v.toNat % smallestNormal := by
  simp [unpackMantissa, smallestNormal, BitVec.extractLsb_toNat]

theorem toNat_unpackExponent (v : BitVec Format.binary64.numBits) :
    (@unpackExponent .binary64 v).toNat = v.toNat % signPattern / smallestNormal := by
  simp only [unpackExponent, smallestNormal, signPattern, BitVec.toNat_cast,
    BitVec.extractLsb_toNat, Nat.shiftRight_eq_div_pow]
  omega

theorem toNat_unpackSign (v : BitVec Format.binary64.numBits) :
    (@unpackSign .binary64 v).toNat = v.toNat / signPattern := by
  have hlt : v.toNat < 2 ^ 64 := v.isLt
  simp only [unpackSign, signPattern, BitVec.toNat_cast, BitVec.extractLsb_toNat,
    Nat.shiftRight_eq_div_pow]
  omega

theorem unpackExponent_eq_ones_iff {v : BitVec Format.binary64.numBits} :
    @unpackExponent .binary64 v = -1#_ ↔ infinityPattern ≤ v.toNat % signPattern := by
  have hlt : v.toNat % signPattern < signPattern := Nat.mod_lt _ (by decide)
  rw [← BitVec.toNat_inj, toNat_unpackExponent]
  simp only [signPattern, smallestNormal, infinityPattern, BitVec.toNat_neg,
    BitVec.toNat_ofNat] at *
  omega

theorem unpackExponent_eq_zero_iff {v : BitVec Format.binary64.numBits} :
    @unpackExponent .binary64 v = 0#_ ↔ v.toNat % signPattern < smallestNormal := by
  rw [← BitVec.toNat_inj, toNat_unpackExponent]
  simp only [signPattern, smallestNormal, BitVec.toNat_ofNat]
  omega

theorem unpackMantissa_eq_zero_iff {v : BitVec Format.binary64.numBits} :
    @unpackMantissa .binary64 v = 0#_ ↔ v.toNat % signPattern % smallestNormal = 0 := by
  rw [← BitVec.toNat_inj, toNat_unpackMantissa]
  simp only [signPattern, smallestNormal, BitVec.toNat_ofNat]
  omega

def signOf (negative : Bool) : Sign := if negative then .negative else .positive

theorem ofBitVec_unpackSign (v : BitVec Format.binary64.numBits) :
    Sign.ofBitVec (@unpackSign .binary64 v) = signOf (signPattern ≤ v.toNat) := by
  have hlt : v.toNat < 2 ^ 64 := v.isLt
  have hpositive : @unpackSign .binary64 v = 0#1 ↔ ¬ signPattern ≤ v.toNat := by
    rw [← BitVec.toNat_inj, toNat_unpackSign]
    simp only [signPattern, BitVec.toNat_zero]
    omega
  by_cases h : signPattern ≤ v.toNat <;> simp [Sign.ofBitVec, signOf, hpositive, h]

theorem toNat_packComponents (s : Sign) (e : BitVec 11) (m : BitVec 52) :
    (packComponents Format.binary64 s e m).toNat =
      s.toBitVec.toNat * signPattern + e.toNat * smallestNormal + m.toNat := by
  rw [packComponents, BitVec.toNat_append, BitVec.toNat_append,
    ← Nat.shiftLeft_add_eq_or_of_lt m.isLt, ← Nat.shiftLeft_add_eq_or_of_lt e.isLt]
  simp only [Nat.shiftLeft_eq, signPattern, smallestNormal]
  ring

/-! ### Unpacked doubles -/

def significand (b : ℕ) : ℕ :=
  if b < smallestNormal then b else smallestNormal + b % smallestNormal

/-- What a pattern with a sign is unpacked to. -/
inductive Unpacks (s : Sign) : ℕ → UnpackedFloat → Prop
  | zero : Unpacks s 0 (.zero s)
  | finite {b m : ℕ} {e : ℤ} (hpos : 0 < b) (hlt : b < infinityPattern)
      (hm : m = significand b) (he : e = (b / smallestNormal - 1 : ℕ) - 1074) (hm₀ : 0 < m) :
      Unpacks s b (.finite s m e hm₀)
  | infinity : Unpacks s infinityPattern (.infinity s)
  | notANumber {b : ℕ} (hlt : infinityPattern < b) : Unpacks s b .notANumber

theorem unpacks_unpack (v : BitVec Format.binary64.numBits) :
    Unpacks (signOf (signPattern ≤ v.toNat)) (v.toNat % signPattern)
      (UnpackedFloat.unpack Format.binary64 v) := by
  rw [← ofBitVec_unpackSign]
  have hexponent := toNat_unpackExponent v
  have hmantissa : (@unpackMantissa .binary64 v).toNat =
      v.toNat % signPattern % smallestNormal := by
    rw [toNat_unpackMantissa]
    simp only [signPattern, smallestNormal]
    omega
  have hlt : v.toNat % signPattern < signPattern := Nat.mod_lt _ (by decide)
  have hones := unpackExponent_eq_ones_iff (v := v)
  have hzeros := unpackExponent_eq_zero_iff (v := v)
  have hblank := unpackMantissa_eq_zero_iff (v := v)
  have hbias : ((Format.binary64.exponentBias : ℕ) : ℤ) = 1023 := rfl
  unfold UnpackedFloat.unpack
  dsimp only
  rw [hexponent, hbias]
  generalize Sign.ofBitVec (@unpackSign .binary64 v) = s
  generalize v.toNat % signPattern = b at *
  split
  · rename_i hinf
    rw [hones] at hinf
    split
    · rename_i hm
      rw [hblank] at hm
      obtain rfl : b = infinityPattern := by
        simp only [infinityPattern, smallestNormal, signPattern] at *
        omega
      exact .infinity
    · rename_i hm
      rw [hblank] at hm
      refine .notANumber ?_
      simp only [infinityPattern, smallestNormal] at *
      omega
  · rename_i hfin
    rw [hones, not_le] at hfin
    split
    · rename_i hsub
      rw [hzeros] at hsub
      split
      · rename_i hm
        rw [hblank, Nat.mod_eq_of_lt hsub] at hm
        subst hm
        exact .zero
      · rename_i hm
        rw [hblank, Nat.mod_eq_of_lt hsub] at hm
        refine .finite (by omega) hfin ?_ ?_ _
        · rw [hmantissa, significand, if_pos hsub, Nat.mod_eq_of_lt hsub]
        · rw [Nat.div_eq_of_lt hsub]
          rfl
    · rename_i hnormal
      rw [hzeros] at hnormal
      refine .finite ?_ hfin ?_ ?_ _
      · exact Nat.lt_of_lt_of_le (by decide) (not_lt.1 hnormal)
      · rw [significand, if_neg hnormal, ← hmantissa, BitVec.toNat_append,
          ← Nat.shiftLeft_add_eq_or_of_lt (BitVec.isLt _)]
        rfl
      · have := Nat.div_pos (not_lt.1 hnormal) (by decide)
        push_cast
        omega

/-! ### Status -/

theorem unpacks (x : Float) : Unpacks (signOf (isNegative x)) (pattern x) x.toModel.unpack :=
  unpacks_unpack x.toBits.toBitVec

theorem Unpacks.status {s : Sign} {b : ℕ} {u : UnpackedFloat} (h : Unpacks s b u) :
    (u.isFinite = true ↔ b < infinityPattern) ∧ (u.isInf = true ↔ b = infinityPattern) ∧
      (u.isNaN = true ↔ infinityPattern < b) := by
  cases h with
  | zero =>
      simp [UnpackedFloat.isFinite, UnpackedFloat.isInf, UnpackedFloat.isNaN, infinityPattern]
  | finite _ hlt =>
      simp only [UnpackedFloat.isFinite, UnpackedFloat.isInf, UnpackedFloat.isNaN]
      exact ⟨by simp [hlt], by simp [hlt.ne], by simp [hlt.le]⟩
  | infinity => simp [UnpackedFloat.isFinite, UnpackedFloat.isInf, UnpackedFloat.isNaN]
  | notANumber hlt =>
      simp only [UnpackedFloat.isFinite, UnpackedFloat.isInf, UnpackedFloat.isNaN]
      exact ⟨by simp [hlt.le], by simp [hlt.ne'], by simp [hlt]⟩

theorem isFinite_iff {x : Float} : x.isFinite = true ↔ pattern x < infinityPattern :=
  (unpacks x).status.1

theorem isInf_iff {x : Float} : x.isInf = true ↔ pattern x = infinityPattern :=
  (unpacks x).status.2.1

theorem isNaN_iff {x : Float} : x.isNaN = true ↔ infinityPattern < pattern x :=
  (unpacks x).status.2.2

theorem isNaN_eq_false {x : Float} (hx : x.isFinite = true) : x.isNaN = false := by
  rw [isFinite_iff] at hx
  rw [Bool.eq_false_iff, Ne, isNaN_iff]
  exact hx.le.not_gt

theorem isInf_eq_false {x : Float} (hx : x.isFinite = true) : x.isInf = false := by
  rw [isFinite_iff] at hx
  rw [Bool.eq_false_iff, Ne, isInf_iff]
  exact hx.ne

/-! ### Packing -/

theorem eq_iff_toBits_eq {x y : Float} : x = y ↔ x.toBits.toNat = y.toBits.toNat := by
  constructor
  · rintro rfl
    rfl
  · intro h
    obtain ⟨⟨v, hv⟩⟩ := x
    obtain ⟨⟨w, hw⟩⟩ := y
    obtain rfl : v = w := UInt64.toNat_inj.1 h
    rfl

theorem toNat_toBits (x : Float) :
    x.toBits.toNat = if isNegative x then signPattern + pattern x else pattern x := by
  have hlt : x.toBits.toNat < 2 ^ 64 := x.toBits.toNat_lt
  by_cases h : signPattern ≤ x.toBits.toNat
  all_goals
    simp only [isNegative, pattern, h, decide_true, decide_false, if_true, Bool.false_eq_true,
      if_false]
    simp only [signPattern] at *
    omega

theorem Unpacks.toNat_pack {s : Sign} {b : ℕ} {u : UnpackedFloat} (h : Unpacks s b u)
    (hb : b ≤ infinityPattern) :
    (UnpackedFloat.pack Format.binary64 u).toNat = s.toBitVec.toNat * signPattern + b := by
  cases h with
  | zero =>
      rw [UnpackedFloat.pack, packedZero, toNat_packComponents]
      simp
  | @finite b m e hpos hlt hm he hm₀ =>
      have hbiased :
          (e + Format.binary64.exponentBias +
            Format.binary64.mantissaBitsWithoutImplicit).toNat
          = b / smallestNormal - 1 + 1 := by
        have hbias : ((Format.binary64.exponentBias : ℕ) : ℤ) = 1023 := rfl
        rw [hbias, he]
        push_cast
        omega
      have hdiv := Nat.div_add_mod' b smallestNormal
      have hbelow : b / smallestNormal < 2047 :=
        Nat.div_lt_of_lt_mul (hlt.trans_eq
          (by decide : infinityPattern = smallestNormal * 2047))
      rw [UnpackedFloat.pack]
      dsimp only
      rw [hbiased, if_neg (by show ¬ 2 ^ 11 ≤ _; omega)]
      rw [significand] at hm
      by_cases hsub : b < smallestNormal
      · have hlog : m.log2 < 52 := by
          rw [Nat.log2_lt hm₀.ne', hm, if_pos hsub]
          exact hsub
        rw [if_neg (by show ¬ m.log2 + 1 = 53; omega), toNat_packComponents,
          BitVec.toNat_ofNat, BitVec.toNat_ofNat,
          Nat.mod_eq_of_lt ((Nat.log2_lt hm₀.ne').1 hlog), hm, if_pos hsub]
        simp
      · rw [if_neg hsub] at hm
        have hmod := Nat.mod_lt b (by decide : 0 < smallestNormal)
        have hlog : m.log2 = 52 := by
          rw [Nat.log2_eq_iff hm₀.ne', hm]
          simp only [smallestNormal] at *
          omega
        have hpos : 0 < b / smallestNormal := Nat.div_pos (not_lt.1 hsub) (by decide)
        have hfield : m % 2 ^ 52 = b % smallestNormal := by
          rw [hm]
          simp only [smallestNormal] at *
          omega
        rw [if_pos (by rw [hlog]; rfl), toNat_packComponents, BitVec.toNat_ofNat,
          BitVec.toNat_ofNat, hfield, Nat.mod_eq_of_lt (by omega), Nat.sub_add_cancel hpos]
        omega
  | infinity =>
      rw [UnpackedFloat.pack, packedInfinity, toNat_packComponents, add_assoc]
      congr 1
  | notANumber hlt => omega

theorem toNat_toBits_ofBits {v : UInt64} (h : v.toNat % signPattern ≤ infinityPattern) :
    (Float.ofBits v).toBits.toNat = v.toNat := by
  show (UnpackedFloat.pack Format.binary64
    (UnpackedFloat.unpack Format.binary64 v.toBitVec)).toNat = _
  rw [(unpacks_unpack v.toBitVec).toNat_pack h]
  have hlt : v.toNat < 2 ^ 64 := v.toNat_lt
  show _ + v.toNat % signPattern = v.toNat
  by_cases hneg : signPattern ≤ v.toNat
  all_goals
    simp only [signOf, UInt64.toNat_toBitVec, hneg, decide_true, decide_false,
      Bool.false_eq_true, if_true, if_false, Sign.toBitVec, BitVec.toNat_ofNat]
    simp only [signPattern] at *
    omega

theorem ofBits_toBits (x : Float) : Float.ofBits x.toBits = x := by
  rw [eq_iff_toBits_eq]
  rcases Nat.lt_or_ge infinityPattern (pattern x) with hnan | hle
  · obtain ⟨⟨v, hv⟩⟩ := x
    have hcanonical : v.toBitVec = packedNaN Format.binary64 := by
      refine hv.eq_packedNaN (unpackExponent_eq_ones_iff.2 hnan.le) fun hm => ?_
      rw [unpackMantissa_eq_zero_iff] at hm
      have hbelow : v.toNat % signPattern < signPattern := Nat.mod_lt _ (by decide)
      have hnan : infinityPattern < v.toNat % signPattern := hnan
      rw [UInt64.toNat_toBitVec] at hm
      simp only [infinityPattern, signPattern, smallestNormal] at *
      omega
    show (UnpackedFloat.pack Format.binary64
      (UnpackedFloat.unpack Format.binary64 v.toBitVec)).toNat = v.toBitVec.toNat
    rw [hcanonical]
    decide
  · exact toNat_toBits_ofBits hle

@[simp] theorem ofPattern_pattern (x : Float) : ofPattern (isNegative x) (pattern x) = x := by
  rw [ofPattern, ← toNat_toBits, UInt64.ofNat_toNat, ofBits_toBits]

theorem toNat_toBits_ofPattern {negative : Bool} {b : ℕ} (hb : b ≤ infinityPattern) :
    (ofPattern negative b).toBits.toNat = if negative then signPattern + b else b := by
  rw [ofPattern]
  generalize hn : (if negative then signPattern + b else b) = n
  have hlt : n < UInt64.size := by
    simp only [signPattern, infinityPattern, UInt64.size] at *
    split at hn <;> omega
  have hmod : n % signPattern = b := by
    simp only [signPattern, infinityPattern] at *
    split at hn <;> omega
  rw [toNat_toBits_ofBits, UInt64.toNat_ofNat_of_lt' hlt]
  rwa [UInt64.toNat_ofNat_of_lt' hlt, hmod]

@[simp] theorem pattern_ofPattern {negative : Bool} {b : ℕ} (hb : b ≤ infinityPattern) :
    pattern (ofPattern negative b) = b := by
  rw [pattern, toNat_toBits_ofPattern hb]
  simp only [signPattern, infinityPattern] at *
  split <;> omega

@[simp] theorem isNegative_ofPattern {negative : Bool} {b : ℕ} (hb : b ≤ infinityPattern) :
    isNegative (ofPattern negative b) = negative := by
  rw [isNegative, toNat_toBits_ofPattern hb]
  cases negative with
  | false => exact decide_eq_false (not_le.2 (hb.trans_lt (by decide)))
  | true => exact decide_eq_true (Nat.le_add_right signPattern b)

/-! ### Order -/

/-- The pattern with the sign of the number. Both zeros have the signed pattern zero. -/
def signedPattern (x : Float) : ℤ := if isNegative x then -(pattern x : ℤ) else pattern x

theorem pattern_eq_exponent_mul_add (b : ℕ) :
    b = (b / smallestNormal - 1) * smallestNormal + significand b ∧
      significand b < 2 * smallestNormal ∧
      (b / smallestNormal - 1 = 0 ∨ smallestNormal ≤ significand b) := by
  have hdiv := Nat.div_add_mod' b smallestNormal
  have hmod := Nat.mod_lt b (by decide : 0 < smallestNormal)
  rw [significand]
  split
  · rename_i hsub
    rw [Nat.div_eq_of_lt hsub]
    omega
  · rename_i hnormal
    have hpos : 0 < b / smallestNormal := Nat.div_pos (not_lt.1 hnormal) (by decide)
    rw [Nat.sub_one_mul]
    have hle : smallestNormal ≤ b / smallestNormal * smallestNormal :=
      Nat.le_mul_of_pos_left _ hpos
    omega

/-- Exponents are compared first, and significands where the exponents agree. -/
theorem compare_exponent_then_significand (b c : ℕ) :
    (compare ((b / smallestNormal - 1 : ℕ) - 1074 : ℤ)
      ((c / smallestNormal - 1 : ℕ) - 1074)).then
      (compare (significand b) (significand c)) = compare (b : ℤ) c := by
  obtain ⟨hb, hbelow, hb'⟩ := pattern_eq_exponent_mul_add b
  obtain ⟨hc, hcelow, hc'⟩ := pattern_eq_exponent_mul_add c
  generalize b / smallestNormal - 1 = d at *
  generalize c / smallestNormal - 1 = e at *
  generalize significand b = m at *
  generalize significand c = n at *
  subst hb hc
  rcases lt_trichotomy d e with hlt | rfl | hgt
  · have : (d + 1) * smallestNormal ≤ e * smallestNormal := Nat.mul_le_mul_right _ hlt
    rw [Nat.succ_mul] at this
    rw [compare_lt_iff_lt.2 (by omega), Ordering.lt_then, eq_comm, compare_lt_iff_lt]
    omega
  · rw [compare_eq_iff_eq.2 rfl, Ordering.eq_then]
    rcases lt_trichotomy m n with hlt | rfl | hgt
    · rw [compare_lt_iff_lt.2 hlt, eq_comm, compare_lt_iff_lt]
      omega
    · rw [compare_eq_iff_eq.2 rfl, compare_eq_iff_eq.2 rfl]
    · rw [compare_gt_iff_gt.2 hgt, eq_comm, compare_gt_iff_gt]
      omega
  · have : (e + 1) * smallestNormal ≤ d * smallestNormal := Nat.mul_le_mul_right _ hgt
    rw [Nat.succ_mul] at this
    rw [compare_gt_iff_gt.2 (by omega), Ordering.gt_then, eq_comm, compare_gt_iff_gt]
    omega

theorem compare_swap_neg (x y : ℤ) : (compare x y).swap = compare (-x) (-y) := by
  rcases lt_trichotomy x y with hlt | rfl | hgt
  · rw [compare_lt_iff_lt.2 hlt, compare_gt_iff_gt.2 (by omega)]
    rfl
  · rw [compare_eq_iff_eq.2 rfl, compare_eq_iff_eq.2 rfl]
    rfl
  · rw [compare_gt_iff_gt.2 hgt, compare_lt_iff_lt.2 (by omega)]
    rfl

theorem Unpacks.compare_eq {b c : ℕ} {s t : Bool} {u v : UnpackedFloat}
    (hu : Unpacks (signOf s) b u) (hv : Unpacks (signOf t) c v) (hb : b ≤ infinityPattern)
    (hc : c ≤ infinityPattern) :
    u.compare v = some (compare (if s then -(b : ℤ) else b) (if t then -(c : ℤ) else c)) := by
  have hinf : 0 < infinityPattern := by decide
  have hlt {x y : ℤ} (h : x < y) : some .lt = some (compare x y) := by
    rw [compare_lt_iff_lt.2 h]
  have hgt {x y : ℤ} (h : y < x) : some .gt = some (compare x y) := by
    rw [compare_gt_iff_gt.2 h]
  cases hu with
  | zero =>
      cases hv with
      | zero => cases s <;> cases t <;> rfl
      | finite hpos => cases t with
        | false => exact hlt (by simp; omega)
        | true => exact hgt (by simp; omega)
      | infinity => cases t with
        | false => exact hlt (by simp; omega)
        | true => exact hgt (by simp; omega)
      | notANumber hnan => omega
  | finite hpos hfin hm he =>
      cases hv with
      | zero => cases s with
        | false => exact hgt (by simp; omega)
        | true => exact hlt (by simp; omega)
      | finite hpos' hfin' hm' he' =>
          have hsize := compare_exponent_then_significand b c
          rw [← hm, ← hm', ← he, ← he'] at hsize
          match s, t with
          | false, false => exact congrArg some hsize
          | false, true => exact hgt (by simp; omega)
          | true, false => exact hlt (by simp; omega)
          | true, true =>
            show some ((compare _ _).then (compare _ _)).swap =
              some (compare (-(b : ℤ)) (-(c : ℤ)))
            rw [hsize, compare_swap_neg]
      | infinity => cases t with
        | false => cases s <;> exact hlt (by simp; omega)
        | true => cases s <;> exact hgt (by simp; omega)
      | notANumber hnan => omega
  | infinity =>
      cases hv with
      | zero => cases s with
        | false => exact hgt (by simp; omega)
        | true => exact hlt (by simp; omega)
      | finite hpos' hfin' => cases s with
        | false => cases t <;> exact hgt (by simp; omega)
        | true => cases t <;> exact hlt (by simp; omega)
      | infinity => cases s <;> cases t <;> rfl
      | notANumber hnan => omega
  | notANumber hnan => omega

theorem compare_unpack {x y : Float} (hx : x.isNaN = false) (hy : y.isNaN = false) :
    x.toModel.unpack.compare y.toModel.unpack =
      some (compare (signedPattern x) (signedPattern y)) := by
  rw [Bool.eq_false_iff, ne_eq, isNaN_iff, not_lt] at hx hy
  exact (unpacks x).compare_eq (unpacks y) hx hy

theorem lt_iff_compare {x y : Float} :
    x < y ↔ x.toModel.unpack.compare y.toModel.unpack = some .lt := by
  show decide (x.toModel < y.toModel) = true ↔ _
  rw [decide_eq_true_iff]
  exact beq_iff_eq

theorem le_iff_compare {x y : Float} :
    x ≤ y ↔ (x.toModel.unpack.compare y.toModel.unpack).any Ordering.isLE = true := by
  show decide (x.toModel ≤ y.toModel) = true ↔ _
  exact decide_eq_true_iff

theorem lt_iff {x y : Float} (hx : x.isNaN = false) (hy : y.isNaN = false) :
    x < y ↔ signedPattern x < signedPattern y := by
  rw [lt_iff_compare, compare_unpack hx hy, Option.some_inj, compare_lt_iff_lt]

theorem le_iff {x y : Float} (hx : x.isNaN = false) (hy : y.isNaN = false) :
    x ≤ y ↔ signedPattern x ≤ signedPattern y := by
  rw [le_iff_compare, compare_unpack hx hy, Option.any_some, Ordering.isLE_iff_ne_gt]
  exact not_congr compare_gt_iff_gt |>.trans not_lt

/-- A value that is not a number is not comparable to any. -/
theorem not_isNaN_of_le {x y : Float} (h : x ≤ y) : x.isNaN = false ∧ y.isNaN = false := by
  rw [le_iff_compare] at h
  show x.toModel.unpack.isNaN = false ∧ y.toModel.unpack.isNaN = false
  cases hx : x.toModel.unpack <;> cases hy : y.toModel.unpack <;>
    simp_all [UnpackedFloat.compare, UnpackedFloat.isNaN]

theorem le_of_le_of_le {x y z : Float} (hxy : x ≤ y) (hyz : y ≤ z) : x ≤ z := by
  obtain ⟨hx, hy⟩ := not_isNaN_of_le hxy
  obtain ⟨-, hz⟩ := not_isNaN_of_le hyz
  rw [le_iff hx hy] at hxy
  rw [le_iff hy hz] at hyz
  exact (le_iff hx hz).2 (hxy.trans hyz)

/-- Values that are not above each other are the same number; they may be zeros of
different signs. -/
theorem beq_of_le_of_le {x y : Float} (hxy : x ≤ y) (hyx : y ≤ x) : (x == y) = true := by
  obtain ⟨hx, hy⟩ := not_isNaN_of_le hxy
  rw [le_iff hx hy] at hxy
  rw [le_iff hy hx] at hyx
  show (x.toModel.unpack.compare y.toModel.unpack == some .eq) = true
  rw [compare_unpack hx hy, beq_iff_eq, Option.some_inj, compare_eq_iff_eq]
  exact le_antisymm hxy hyx

theorem not_lt_iff_le {x y : Float} (hx : x.isNaN = false) (hy : y.isNaN = false) :
    ¬ x < y ↔ y ≤ x := by
  rw [lt_iff hx hy, le_iff hy hx, not_lt]

end VideoFingerprint.Binary64
