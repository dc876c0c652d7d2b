import VideoFingerprint.Proofs.Number.Arithmetic

/-!
Sums and halves of doubles as numbers with a sign. The signed pattern of a sum is the one
nearest to the exact sum, whether it is made of the sizes or of their difference, so sums and
halves keep the order. The mean of two doubles that are far enough from infinity therefore lies
between them, although both of its steps round.
-/

namespace VideoFingerprint.Binary64

open Float.Model Float.Model.UnpackedFloat

/-! ### Sizes with a sign -/

/-- A function of sizes, carried over to numbers with a sign. -/
def odd (f : ℕ → ℕ) (n : ℤ) : ℤ := n.sign * f n.natAbs

def signed (negative : Bool) (n : ℕ) : ℤ := if negative then -(n : ℤ) else n

section Odd

variable {f : ℕ → ℕ}

theorem odd_neg (f : ℕ → ℕ) (n : ℤ) : odd f (-n) = -odd f n := by
  rw [odd, odd, Int.sign_neg, Int.natAbs_neg, neg_mul]

theorem odd_natCast (h : f 0 = 0) (n : ℕ) : odd f n = f n := by
  rcases Nat.eq_zero_or_pos n with rfl | hpos
  · simp [odd, h]
  · rw [odd, Int.natAbs_natCast, Int.sign_eq_one_of_pos (by exact_mod_cast hpos), one_mul]

theorem odd_signed (h : f 0 = 0) (negative : Bool) (n : ℕ) :
    odd f (signed negative n) = signed negative (f n) := by
  cases negative with
  | false => exact odd_natCast h n
  | true => exact (odd_neg f n).trans (congrArg _ (odd_natCast h n))

theorem odd_mono (h : f 0 = 0) (hf : Monotone f) : Monotone (odd f) := by
  intro x y hxy
  obtain ⟨m, rfl | rfl⟩ := x.eq_nat_or_neg <;> obtain ⟨n, rfl | rfl⟩ := y.eq_nat_or_neg
  · rw [odd_natCast h, odd_natCast h]
    exact_mod_cast hf (by omega)
  · obtain ⟨rfl, rfl⟩ : m = 0 ∧ n = 0 := by omega
    simp
  · rw [odd_neg, odd_natCast h, odd_natCast h]
    omega
  · rw [odd_neg, odd_neg, odd_natCast h, odd_natCast h]
    have : f n ≤ f m := hf (by omega)
    omega

end Odd

/-- The signed pattern nearest to a quotient with a sign. -/
def nearestSigned (den : ℕ) : ℤ → ℤ := odd fun num => nearestPattern num den

variable {den : ℕ}

theorem nearestSigned_signed (hden : 0 < den) (negative : Bool) (n : ℕ) :
    nearestSigned den (signed negative n) = signed negative (nearestPattern n den) :=
  odd_signed (f := fun num => nearestPattern num den) (nearestPattern_zero hden) negative n

theorem nearestSigned_mono (hden : 0 < den) : Monotone (nearestSigned den) :=
  odd_mono (nearestPattern_zero hden) fun _ _ h =>
    nearestPattern_mono hden hden (Nat.mul_le_mul_right den h)

theorem signed_mul (negative : Bool) (m n : ℕ) :
    signed negative (m * n) = signed negative m * n := by
  cases negative <;> simp [signed]

theorem natAbs_signed (negative : Bool) (n : ℕ) : (signed negative n).natAbs = n := by
  cases negative <;> simp [signed]

theorem exists_signed (p : ℤ) : ∃ negative, p = signed negative p.natAbs := by
  obtain h | h := p.natAbs_eq
  · exact ⟨false, h⟩
  · exact ⟨true, h⟩

/-- A signed pattern is nearest to its own magnitude. -/
theorem nearestSigned_magnitude (hden : 0 < den) {p : ℤ} (hp : p.natAbs ≤ infinityPattern) :
    nearestSigned den (odd patternMagnitude p * den) = p := by
  obtain ⟨negative, hsigned⟩ := exists_signed p
  rw [hsigned, odd_signed patternMagnitude_zero, ← signed_mul, nearestSigned_signed hden,
    nearestPattern_patternMagnitude hden hp]

theorem signedPattern_ofPattern {negative : Bool} {b : ℕ} (hb : b ≤ infinityPattern) :
    signedPattern (ofPattern negative b) = signed negative b := by
  rw [signedPattern, isNegative_ofPattern hb, pattern_ofPattern hb]
  rfl

theorem natAbs_signedPattern (x : Float) : (signedPattern x).natAbs = pattern x := by
  rw [signedPattern]
  split <;> simp

theorem isFinite_iff_natAbs {x : Float} :
    x.isFinite = true ↔ (signedPattern x).natAbs < infinityPattern := by
  rw [natAbs_signedPattern, isFinite_iff]

def signedMagnitude (x : Float) : ℤ := odd patternMagnitude (signedPattern x)

theorem signedMagnitude_eq (x : Float) :
    signedMagnitude x = signed (isNegative x) (magnitude x) :=
  odd_signed patternMagnitude_zero (isNegative x) (pattern x)

/-! ### Sums -/

/-- An unpacked double is packed to the double with the signed pattern `p`. -/
def PacksTo (u : UnpackedFloat) (p : ℤ) : Prop := ∃ negative b, b ≤ infinityPattern ∧
  (UnpackedFloat.pack .binary64 u).toNat = (signOf negative).toBitVec.toNat * signPattern + b ∧
  p = signed negative b

theorem PacksTo.signedPattern_eq {x : Float} {u : UnpackedFloat} {p : ℤ} (h : PacksTo u p)
    (hx : x.toBits.toNat = (UnpackedFloat.pack .binary64 u).toNat) : signedPattern x = p := by
  obtain ⟨negative, b, hb, hpack, rfl⟩ := h
  rw [eq_ofPattern hb (hx.trans hpack), signedPattern_ofPattern hb]

theorem Unpacks.packsTo {s : Bool} {b : ℕ} {u : UnpackedFloat} (h : Unpacks (signOf s) b u)
    (hb : b ≤ infinityPattern) : PacksTo u (signed s b) := ⟨s, b, hb, h.toNat_pack hb, rfl⟩

theorem packsTo_normalize (m : ℤ) (d : ℕ) :
    PacksTo (UnpackedFloat.normalize .binary64 m (d - 1074) .positive)
      (nearestSigned 1 (m * 2 ^ d)) := by
  obtain ⟨negative, hsigned⟩ := exists_signed m
  generalize m.natAbs = n at hsigned
  subst hsigned
  have hnearest : nearestSigned 1 (signed negative n * 2 ^ d) =
      signed negative (nearestPattern (n * 2 ^ d) 1) := by
    rw [← nearestSigned_signed Nat.one_pos, signed_mul, Nat.cast_pow, Nat.cast_ofNat]
  rw [hnearest]
  unfold UnpackedFloat.normalize
  rcases Nat.eq_zero_or_pos n with rfl | hpos
  · have hzero : signed negative 0 = 0 := by cases negative <;> rfl
    rw [hzero, Int.compare_eq_eq.2 rfl, Nat.zero_mul, nearestPattern_zero Nat.one_pos]
    refine ⟨false, 0, Nat.zero_le _,
      (Unpacks.zero (s := .positive)).toNat_pack (Nat.zero_le _), hzero⟩
  · refine ⟨negative, _, nearestPattern_le _ _, ?_, rfl⟩
    cases negative with
    | false =>
        rw [Int.compare_eq_gt.2 (by simpa [signed] using hpos)]
        exact toNat_pack_round .positive hpos d
    | true =>
        have hopposite : (-signed true n).toNat = n := by simp [signed]
        rw [Int.compare_eq_lt.2 (by simpa [signed] using hpos), hopposite]
        exact toNat_pack_round .negative hpos d

/-- Sums of finite doubles: the significands are brought to the smaller exponent, where they
are added exactly, and the sum is rounded once. -/
theorem Unpacks.packsTo_add {s t : Bool} {b c : ℕ} {u v : UnpackedFloat}
    (hu : Unpacks (signOf s) b u) (hv : Unpacks (signOf t) c v) (hb : b < infinityPattern)
    (hc : c < infinityPattern) :
    PacksTo (UnpackedFloat.add .binary64 u v)
      (nearestSigned 1 (signed s (patternMagnitude b) + signed t (patternMagnitude c))) := by
  have hself (negative : Bool) {d : ℕ} (hd : d < infinityPattern) :
      nearestSigned 1 (signed negative (patternMagnitude d)) = signed negative d := by
    have hnearest := nearestPattern_patternMagnitude Nat.one_pos hd.le
    rw [mul_one] at hnearest
    rw [nearestSigned_signed Nat.one_pos, hnearest]
  have hzero (negative : Bool) : signed negative (patternMagnitude 0) = 0 := by
    cases negative <;> rfl
  rcases hu.eq_zero_or_finite hb with ⟨rfl, rfl⟩ | ⟨m, d, hm, rfl, hmag, -⟩
  · rw [hzero, zero_add, hself t hc]
    rcases hv.eq_zero_or_finite hc with ⟨rfl, rfl⟩ | ⟨n, e, hn, rfl, -, -⟩
    · refine ⟨s && t, 0, Nat.zero_le _, ?_, by cases s <;> cases t <;> rfl⟩
      rw [← (Unpacks.zero (s := signOf (s && t))).toNat_pack (Nat.zero_le _)]
      cases s <;> cases t <;> rfl
    · exact hv.packsTo hc.le
  · rcases hv.eq_zero_or_finite hc with ⟨rfl, rfl⟩ | ⟨n, e, hn, rfl, hmag', -⟩
    · rw [hzero, add_zero, hself s hb]
      exact hu.packsTo hb.le
    · have hexponent : min (d - 1074 : ℤ) (e - 1074) = (min d e : ℕ) - 1074 := by omega
      have hpart (negative : Bool) (n e k : ℕ) (h : k ≤ e) :
          (signOf negative).apply (n <<< ((e : ℤ) - 1074 - (k - 1074)).toNat : ℕ) * 2 ^ k =
            signed negative (n * 2 ^ e) := by
        have happly (n : ℕ) : (signOf negative).apply n = signed negative n := by
          cases negative <;> rfl
        have hpow : n * 2 ^ (e - k) * 2 ^ k = n * 2 ^ e := by
          rw [mul_assoc, ← pow_add, Nat.sub_add_cancel h]
        rw [happly, Nat.shiftLeft_eq, (by omega : ((e : ℤ) - 1074 - (k - 1074)).toNat = e - k),
          ← hpow, signed_mul _ _ (2 ^ k), Nat.cast_pow, Nat.cast_ofNat]
      rw [hmag, hmag', ← hpart s m d _ (min_le_left d e), ← hpart t n e _ (min_le_right d e),
        ← add_mul]
      simp only [UnpackedFloat.add, decreaseExponent, hexponent]
      exact packsTo_normalize _ (min d e)

variable {x y : Float}

/-- The sum of two doubles is the double nearest to the exact sum. -/
theorem signedPattern_add (hx : x.isFinite = true) (hy : y.isFinite = true) :
    signedPattern (x + y) = nearestSigned 1 (signedMagnitude x + signedMagnitude y) := by
  rw [signedMagnitude_eq, signedMagnitude_eq]
  exact ((unpacks x).packsTo_add (unpacks y) (isFinite_iff.1 hx)
    (isFinite_iff.1 hy)).signedPattern_eq rfl

/-! ### Differences -/

theorem neg_apply (s : Sign) (n : ℤ) : (-s).apply n = -s.apply n := by
  cases s <;> simp [Sign.apply]

theorem sub_eq_add_neg (u v : UnpackedFloat) :
    UnpackedFloat.sub .binary64 u v = UnpackedFloat.add .binary64 u v.neg := by
  cases u <;> cases v <;> try rfl
  rw [UnpackedFloat.neg, UnpackedFloat.sub, UnpackedFloat.add]
  dsimp only
  rw [neg_apply, Int.sub_eq_add_neg]

theorem Unpacks.neg {s : Bool} {b : ℕ} {u : UnpackedFloat} (h : Unpacks (signOf s) b u) :
    Unpacks (signOf !s) b u.neg := by
  have hsign : -signOf s = signOf !s := by cases s <;> rfl
  cases h with
  | zero => exact hsign ▸ .zero
  | finite hpos hlt hm he hm₀ =>
      rw [UnpackedFloat.neg, hsign]
      exact .finite hpos hlt hm he hm₀
  | infinity => exact hsign ▸ .infinity
  | notANumber hlt => exact .notANumber hlt

theorem signed_not (negative : Bool) (n : ℕ) : signed (!negative) n = -signed negative n := by
  cases negative <;> simp [signed]

theorem signedPattern_neg (hx : x.isFinite = true) :
    signedPattern (-x) = -signedPattern x := by
  have hpacks := (unpacks x).neg.packsTo (isFinite_iff.1 hx).le
  rw [signed_not] at hpacks
  exact hpacks.signedPattern_eq rfl

/-- The difference of two doubles is the double nearest to the exact difference. -/
theorem signedPattern_sub (hx : x.isFinite = true) (hy : y.isFinite = true) :
    signedPattern (x - y) = nearestSigned 1 (signedMagnitude x - signedMagnitude y) := by
  have hsum := (unpacks x).packsTo_add (unpacks y).neg (isFinite_iff.1 hx) (isFinite_iff.1 hy)
  rw [← sub_eq_add_neg, signed_not, ← Int.sub_eq_add_neg] at hsum
  rw [signedMagnitude_eq, signedMagnitude_eq]
  exact hsum.signedPattern_eq rfl

/-! ### Halves -/

/-- Half of a double is the double nearest to the exact half. -/
theorem signedPattern_half (hx : x.isFinite = true) :
    signedPattern (x / Float.ofNat 2) = nearestSigned 2 (signedMagnitude x) := by
  have htwo : magnitude (Float.ofNat 2) = 2 * unit := by
    rw [magnitude, pattern_ofNat]
    decide +kernel
  have hhalf : nearestPattern (magnitude x * unit) (2 * unit) =
      nearestPattern (magnitude x) 2 :=
    nearestPattern_congr (Nat.mul_pos Nat.two_pos unit_pos) Nat.two_pos (by ring)
  rw [div_eq hx (isFinite_ofNat (by decide)) (pattern_ofNat_pos Nat.two_pos), ofQuotient,
    signedPattern_ofPattern (nearestPattern_le _ _), htwo, hhalf, isNegative_ofNat,
    Bool.bne_false, signedMagnitude_eq, nearestSigned_signed Nat.two_pos]

/-! ### Means -/

def FarFromInfinity (x : Float) : Prop := pattern x + smallestNormal < infinityPattern

theorem FarFromInfinity.isFinite (h : FarFromInfinity x) : x.isFinite = true :=
  isFinite_iff.2 ((Nat.le_add_right _ _).trans_lt h)

/-- Twice a magnitude is a magnitude: one binade further on, unless it is that of a
subnormal number. -/
theorem exists_twice_patternMagnitude (b : ℕ) :
    ∃ c, patternMagnitude c = 2 * patternMagnitude b ∧ c ≤ b + smallestNormal := by
  obtain ⟨s, r, rfl, hr, hs, -⟩ := exists_binade b
  by_cases hnormal : smallestNormal ≤ r
  · refine ⟨(s + 1) * smallestNormal + r, ?_, ?_⟩
    · rw [patternMagnitude_binade hr.le (.inr hnormal),
        patternMagnitude_binade hr.le (.inr hnormal)]
      ring
    · rw [Nat.succ_mul]
      omega
  · obtain rfl : s = 0 := hs.resolve_right hnormal
    refine ⟨0 * smallestNormal + 2 * r, ?_, by omega⟩
    rw [patternMagnitude_binade (by omega) (.inl rfl),
      patternMagnitude_binade hr.le (.inl rfl)]
    ring

theorem exists_twice_signed {p : ℤ} (hp : p.natAbs + smallestNormal < infinityPattern) :
    ∃ c : ℤ, odd patternMagnitude c = 2 * odd patternMagnitude p ∧
      c.natAbs < infinityPattern := by
  obtain ⟨negative, hsigned⟩ := exists_signed p
  obtain ⟨c, htwice, hc⟩ := exists_twice_patternMagnitude p.natAbs
  refine ⟨signed negative c, ?_, ?_⟩
  · rw [hsigned, odd_signed patternMagnitude_zero, odd_signed patternMagnitude_zero, htwice]
    cases negative <;> simp [signed]
  · rw [natAbs_signed]
    omega

/-- A factor of a finite product is finite. -/
theorem isFinite_of_isFinite_mul (h : (x * y).isFinite = true) : x.isFinite = true := by
  have hlost {u : UnpackedFloat} (hu : u = .notANumber ∨ ∃ s, u = .infinity s)
      (hpack : (x * y).toBits.toNat = (UnpackedFloat.pack .binary64 u).toNat) : False := by
    rw [isFinite_iff, pattern, hpack] at h
    obtain rfl | ⟨s, rfl⟩ := hu
    · revert h
      decide
    · revert h
      cases s <;> decide
  by_contra hx
  rw [isFinite_iff] at hx
  refine hlost (u := UnpackedFloat.mul .binary64 x.toModel.unpack y.toModel.unpack) ?_ rfl
  have hu := unpacks x
  generalize x.toModel.unpack = u at hu ⊢
  generalize y.toModel.unpack = v
  generalize pattern x = b at hu hx
  cases hu with
  | zero => exact absurd (by decide) hx
  | finite _ hlt => exact absurd hlt hx
  | infinity => cases v <;> simp [UnpackedFloat.mul]
  | notANumber => cases v <;> simp [UnpackedFloat.mul]

/-- A finite product with 2 / 64 is far from infinity. -/
theorem farFromInfinity_mul (h : (x * (Float.ofNat 2 / Float.ofNat 64)).isFinite = true) :
    FarFromInfinity (x * (Float.ofNat 2 / Float.ofNat 64)) := by
  have hx := isFinite_of_isFinite_mul h
  have hscale : (Float.ofNat 2 / Float.ofNat 64).isFinite = true := by decide +kernel
  have hlargest : nearestPattern (patternMagnitude (infinityPattern - 1) *
      magnitude (Float.ofNat 2 / Float.ofNat 64)) unit + smallestNormal <
        infinityPattern := by decide +kernel
  have hsize : magnitude x ≤ patternMagnitude (infinityPattern - 1) :=
    strictMono_patternMagnitude.monotone (Nat.le_sub_one_of_lt (isFinite_iff.1 hx))
  rw [FarFromInfinity, mul_eq hx hscale, pattern_ofPattern (nearestPattern_le _ _)]
  refine lt_of_le_of_lt (Nat.add_le_add_right (nearestPattern_mono unit_pos unit_pos ?_) _)
    hlargest
  exact Nat.mul_le_mul_right _ (Nat.mul_le_mul_right _ hsize)

/-- The mean of two doubles in rising order. -/
theorem mean_spec (hx : FarFromInfinity x) (hy : FarFromInfinity y)
    (hxy : signedPattern x ≤ signedPattern y) :
    ((x + y) / Float.ofNat 2).isFinite = true ∧
      signedPattern ((x + y) / Float.ofNat 2) =
        nearestSigned 2 (odd patternMagnitude
          (nearestSigned 1 (signedMagnitude x + signedMagnitude y))) ∧
      signedPattern x ≤ signedPattern ((x + y) / Float.ofNat 2) ∧
      signedPattern ((x + y) / Float.ofNat 2) ≤ signedPattern y := by
  have hmagnitude := odd_mono patternMagnitude_zero strictMono_patternMagnitude.monotone
  have hsum := signedPattern_add hx.isFinite hy.isFinite
  have hsizes : signedMagnitude x ≤ signedMagnitude y := hmagnitude hxy
  rw [FarFromInfinity, ← natAbs_signedPattern] at hx hy
  obtain ⟨low, hlow, hlowBound⟩ := exists_twice_signed hx
  obtain ⟨high, hhigh, hhighBound⟩ := exists_twice_signed hy
  have hlowSelf := nearestSigned_magnitude Nat.one_pos hlowBound.le
  have hhighSelf := nearestSigned_magnitude Nat.one_pos hhighBound.le
  rw [hlow, Nat.cast_one, mul_one] at hlowSelf
  rw [hhigh, Nat.cast_one, mul_one] at hhighSelf
  have hlowSum : low ≤ signedPattern (x + y) := by
    rw [hsum, ← hlowSelf]
    refine nearestSigned_mono Nat.one_pos ?_
    show 2 * signedMagnitude x ≤ _
    omega
  have hhighSum : signedPattern (x + y) ≤ high := by
    rw [hsum, ← hhighSelf]
    refine nearestSigned_mono Nat.one_pos ?_
    show _ ≤ 2 * signedMagnitude y
    omega
  have hfinite : (x + y).isFinite = true := isFinite_iff_natAbs.2 (by omega)
  have hmean := signedPattern_half hfinite
  have hlowMean : signedPattern x ≤ signedPattern ((x + y) / Float.ofNat 2) := by
    rw [hmean, ← nearestSigned_magnitude Nat.two_pos (p := signedPattern x) (by omega)]
    refine nearestSigned_mono Nat.two_pos ?_
    rw [Nat.cast_two, mul_comm, ← hlow]
    exact hmagnitude hlowSum
  have hhighMean : signedPattern ((x + y) / Float.ofNat 2) ≤ signedPattern y := by
    rw [hmean, ← nearestSigned_magnitude Nat.two_pos (p := signedPattern y) (by omega)]
    refine nearestSigned_mono Nat.two_pos ?_
    rw [Nat.cast_two, mul_comm, ← hhigh]
    exact hmagnitude hhighSum
  refine ⟨isFinite_iff_natAbs.2 (by omega), ?_, hlowMean, hhighMean⟩
  rw [hmean, signedMagnitude, hsum]

end VideoFingerprint.Binary64
