import VideoFingerprint.Proofs.Frame.Brightness
import VideoFingerprint.Proofs.Frame.Finite
import VideoFingerprint.Proofs.Frame.Spectrum
import VideoFingerprint.Proofs.Hash.Bits
import VideoFingerprint.Proofs.Number.Addition
import VideoFingerprint.Proofs.Number.Median
import VideoFingerprint.Proofs.Number.Real

/-!
The bits of a hash. Each one says whether its coefficient is at or above the median, so greater
coefficients have their bits set first, and at least half of the bits are set. The median is a
mean that rounds twice; that it does not end up above the upper one of the two middle
coefficients is what the half rests on.
-/

namespace VideoFingerprint

open Scalar

variable {α : Type} [Scalar α]

/-- What a hash tells of the coefficients: the bit of each coefficient says whether it is at or
above the mean of the two middle ones. At least half of the bits are set, and those of greater
coefficients before those of smaller ones. -/
structure BinarisedAtMedian (coefficient : Fin Hash.size → α) (h : Hash) : Prop where
  middle : ∃ low high, IsOrderStatistic (List.ofFn coefficient) 127 low ∧
    IsOrderStatistic (List.ofFn coefficient) 128 high
  bit : ∀ low high, IsOrderStatistic (List.ofFn coefficient) 127 low →
    IsOrderStatistic (List.ofFn coefficient) 128 high →
    ∀ k : Fin Hash.size, h.bit? k = some (le ((low + high) / ofNat 2) (coefficient k))
  half : 128 ≤ h.ones
  rising : ∀ i j : Fin Hash.size, le (coefficient j) (coefficient i) = true →
    h.bit? j = some true → h.bit? i = some true

namespace FrameHash

theorem bit?_ofCoefficients (coefficient : Fin Hash.size → α) (k : Fin Hash.size) :
    (ofCoefficients (List.ofFn coefficient)).hash.bit? k =
      some (le (median (List.ofFn coefficient)) (coefficient k)) := by
  have hk : k.val < (List.ofFn coefficient).length := by rw [List.length_ofFn]; exact k.isLt
  rw [ofCoefficients, Hash.bit?_ofBits _ k.isLt, List.getD_eq_getElem?_getD, List.getElem?_map,
    List.getElem?_eq_getElem hk, List.getElem_ofFn]
  rfl

theorem ones_ofCoefficients (coefficient : Fin Hash.size → α) :
    (ofCoefficients (List.ofFn coefficient)).hash.ones =
      (List.ofFn coefficient).countP fun c => le (median (List.ofFn coefficient)) c := by
  rw [ofCoefficients, Hash.ones_ofBits (by rw [List.length_map, List.length_ofFn]),
    List.count_eq_countP, List.countP_map]
  exact List.countP_congr fun c _ => by simp

variable {β : Type} [LinearOrder β] {key : α → β}

/-- Means of two of the values, the greater one last: they are finite and not above the greater
one, and which of the values that compare alike are taken makes no difference to comparing. -/
structure HasMeans (key : α → β) (values : List α) : Prop where
  isFinite : ∀ x ∈ values, ∀ y ∈ values, key x ≤ key y →
    Scalar.isFinite ((x + y) / ofNat 2) = true
  le : ∀ x ∈ values, ∀ y ∈ values, key x ≤ key y → key ((x + y) / ofNat 2) ≤ key y
  congr : ∀ x ∈ values, ∀ y ∈ values, ∀ x' ∈ values, ∀ y' ∈ values, key x ≤ key y →
    key x = key x' →
    key y = key y' → key ((x + y) / ofNat 2) = key ((x' + y') / ofNat 2)

theorem binarisedAtMedian (ho : OrderedBy key) {coefficient : Fin Hash.size → α}
    (hfinite : ∀ k, Scalar.isFinite (coefficient k) = true)
    (hmeans : HasMeans key (List.ofFn coefficient)) :
    BinarisedAtMedian coefficient (ofCoefficients (List.ofFn coefficient)).hash := by
  have hfinite' : ∀ v ∈ List.ofFn coefficient, Scalar.isFinite v = true :=
    List.forall_mem_ofFn_iff.2 hfinite
  have hlength : (List.ofFn coefficient).length = 2 * 128 := List.length_ofFn
  obtain ⟨low, high, hlow, hhigh, hmedian⟩ := ho.exists_median_eq hfinite' hlength (by decide)
  have hle := ho.key_le_key hfinite' hlow hhigh (by decide)
  have hmean := hmeans.isFinite low hlow.mem high hhigh.mem hle
  have hbit (k : Fin Hash.size) := bit?_ofCoefficients coefficient k
  rw [hmedian] at hbit
  refine ⟨⟨low, high, hlow, hhigh⟩,
    fun low' high' hlow' hhigh' k => ?_, ?_, fun i j hij hj => ?_⟩
  · have hkeys := hmeans.congr low hlow.mem high hhigh.mem low' hlow'.mem high' hhigh'.mem hle
      (ho.key_eq hfinite' hlow hlow') (ho.key_eq hfinite' hhigh hhigh')
    have hle' := ho.key_le_key hfinite' hlow' hhigh' (by decide)
    have hmean' := hmeans.isFinite low' hlow'.mem high' hhigh'.mem hle'
    rw [hbit, Option.some_inj, Bool.eq_iff_iff, ho.le_iff hmean (hfinite k),
      ho.le_iff hmean' (hfinite k), hkeys]
  · have hcount :=
      ho.length_le_countP_add hfinite' hhigh hmean (hmeans.le low hlow.mem high hhigh.mem hle)
    rw [ones_ofCoefficients, hmedian]
    omega
  · rw [hbit, Option.some_inj] at hj ⊢
    rw [ho.le_iff (hfinite j) (hfinite i)] at hij
    rw [ho.le_iff hmean (hfinite j)] at hj
    exact (ho.le_iff hmean (hfinite i)).2 (hj.trans hij)

/-! ### Doubles -/

theorem orderedBy_signedPattern : OrderedBy Binary64.signedPattern where
  le_iff hx hy :=
    decide_eq_true_iff.trans
      (Binary64.le_iff (Binary64.isNaN_eq_false hx) (Binary64.isNaN_eq_false hy))
  lt_iff hx hy :=
    decide_eq_true_iff.trans
      (Binary64.lt_iff (Binary64.isNaN_eq_false hx) (Binary64.isNaN_eq_false hy))
  key_le {x y} _ _ h := by
    have hkeys : Binary64.sortKey x ≤ Binary64.sortKey y := of_decide_eq_true h
    simp only [Binary64.sortKey, Binary64.place] at hkeys
    simp only [Binary64.signedPattern]
    split_ifs at * <;> omega
  trans _ _ _ := Binary64.sortsBefore_trans
  total := Binary64.sortsBefore_total

theorem hasMeans_signedPattern {values : List Float}
    (h : ∀ v ∈ values, Binary64.FarFromInfinity v) :
    HasMeans Binary64.signedPattern values where
  isFinite x hx y hy hxy := (Binary64.mean_spec (h x hx) (h y hy) hxy).1
  le x hx y hy hxy := (Binary64.mean_spec (h x hx) (h y hy) hxy).2.2.2
  congr x hx y hy x' hx' y' hy' hxy hxx' hyy' := by
    have hxy' : Binary64.signedPattern x' ≤ Binary64.signedPattern y' := hxx' ▸ hyy' ▸ hxy
    have hmean := (Binary64.mean_spec (h x hx) (h y hy) hxy).2.1
    have hmean' := (Binary64.mean_spec (h x' hx') (h y' hy') hxy').2.1
    rw [Binary64.signedMagnitude, Binary64.signedMagnitude] at hmean hmean'
    rw [← hxx', ← hyy', ← hmean] at hmean'
    exact hmean'.symm

/-! ### Exact arithmetic -/

theorem orderedBy_id : OrderedBy (id : ℝ → ℝ) where
  le_iff _ _ := decide_eq_true_iff
  lt_iff _ _ := decide_eq_true_iff
  key_le _ _ := of_decide_eq_true
  trans x y z := by simpa [sortsBefore_real] using le_trans
  total x y := by simpa [sortsBefore_real] using le_total x y

theorem hasMeans_id (values : List ℝ) : HasMeans id values where
  isFinite _ _ _ _ _ := rfl
  le x _ y _ hxy := by
    simp only [id, ofNat_real] at *
    linarith
  congr x _ y _ x' _ y' _ _ hxx' hyy' := by
    simp only [id] at *
    rw [hxx', hyy']

/-- Without rounding, half of the bits are set exactly if the two middle
coefficients differ. -/
theorem ones_eq_half_iff (coefficient : Fin Hash.size → ℝ) :
    (ofCoefficients (List.ofFn coefficient)).hash.ones = 128 ↔ ∃ low high,
      IsOrderStatistic (List.ofFn coefficient) 127 low ∧
      IsOrderStatistic (List.ofFn coefficient) 128 high ∧
        low ≠ high := by
  have ho := orderedBy_id
  have hfinite : ∀ v ∈ List.ofFn coefficient, Scalar.isFinite v = true := fun _ _ => rfl
  have hlength : (List.ofFn coefficient).length = 2 * 128 := List.length_ofFn
  obtain ⟨low, high, hlow, hhigh, hmedian⟩ := ho.exists_median_eq hfinite hlength (by decide)
  have hle : low ≤ high := ho.key_le_key hfinite hlow hhigh (by decide)
  have htwo : (ofNat 2 : ℝ) = 2 := ofNat_real 2
  rw [ones_ofCoefficients, hmedian, htwo]
  constructor
  · intro hones
    refine ⟨low, high, hlow, hhigh, ?_⟩
    rintro rfl
    have hcount := ho.length_le_countP_add hfinite hlow (m := (low + low) / 2) rfl
      (by simp only [id]; linarith)
    omega
  · rintro ⟨low', high', hlow', hhigh', hne⟩
    obtain rfl : low = low' := ho.key_eq hfinite hlow hlow'
    obtain rfl : high = high' := ho.key_eq hfinite hhigh hhigh'
    have hlt : low < high := lt_of_le_of_ne hle hne
    have hlow := ho.countP_add_lt_length hfinite hlow (m := (low + high) / 2) rfl
      (by simp only [id]; linarith)
    have hhigh := ho.length_le_countP_add hfinite hhigh (m := (low + high) / 2) rfl
      (by simp only [id]; linarith)
    omega

/-- Binarisation at the median is balanced and keeps to the order of the coefficients. The hash
of an image all of whose coefficients are finite, under any transform of rows, is made of bits
that say which coefficients are at or above the mean of the two middle ones; so at least half
of them are set, and with the bit of a coefficient those of all that are not below it. In exact
arithmetic half of them are set exactly if the two middle ones differ. -/
theorem binarised_at_median :
    (∀ (transformRow : Vector Float Plane.samples → Vector Float Plane.samples) (m : Image)
      (hw : 0 < m.width) (hh : 0 < m.height), minSide ≤ m.width → minSide ≤ m.height →
      (∀ k, (Spectrum.coefficient
        (Cosine.grid transformRow (m.lumaPlane.downsample hw hh)) k).isFinite = true) →
      ∃ f, ofPlane transformRow m.lumaPlane = .ok f ∧
        (transformRow = Cosine.row Angles.ofFloat → ofImage m = .ok f) ∧
        BinarisedAtMedian (Spectrum.coefficient
          (Cosine.grid transformRow (m.lumaPlane.downsample hw hh))) f.hash) ∧
    ∀ (transformRow : Vector ℝ Plane.samples → Vector ℝ Plane.samples) (p : Plane ℝ)
      (hw : 0 < p.width) (hh : 0 < p.height), minSide ≤ p.width → minSide ≤ p.height →
      ∃ f coefficient, ofPlane transformRow p = .ok f ∧
        coefficient = Spectrum.coefficient (Cosine.grid transformRow (p.downsample hw hh)) ∧
        BinarisedAtMedian coefficient f.hash ∧
        (f.hash.ones = 128 ↔ ∃ low high, IsOrderStatistic (List.ofFn coefficient) 127 low ∧
          IsOrderStatistic (List.ofFn coefficient) 128 high ∧ low ≠ high) := by
  constructor
  · intro transformRow m hw hh hw' hh' hfinite
    have hok := @ofPlane_eq_ok _ _ transformRow m.lumaPlane hw hh hw' hh'
    have hmeans :=
      hasMeans_signedPattern
        (List.forall_mem_ofFn_iff.2 fun k => Binary64.farFromInfinity_mul (hfinite k))
    refine ⟨_, hok, ?_, ?_⟩
    · rintro rfl
      exact hok
    · show BinarisedAtMedian _ (ofCoefficients (Spectrum.lowest _)).hash
      rw [Spectrum.lowest_eq_ofFn]
      exact binarisedAtMedian orderedBy_signedPattern hfinite hmeans
  · intro transformRow p hw hh hw' hh'
    refine ⟨_, _, ofPlane_eq_ok hw hh hw' hh', rfl, ?_⟩
    rw [Spectrum.ofPlane, Spectrum.lowest_eq_ofFn]
    exact ⟨binarisedAtMedian orderedBy_id (fun _ => rfl) (hasMeans_id _), ones_eq_half_iff _⟩

/-! ### A spot of light -/

/-- A gray frame of five by five pixels, all black but the first one. -/
def spot : Image := ⟨5, 5, .gray, .bytes ⟨(255 :: List.replicate 24 0).toArray⟩, rfl⟩

/-- Cosines and sines of the angles of a quarter turn, as fractions that agree with them to
about two digits. -/
def roughAngles : Angles Float where
  cos i n := Float.ofNat (n * n - 16 * i * i) / Float.ofNat (n * n + 4 * i * i)
  sin i n :=
    Float.ofNat (32 * i * (n - 2 * i)) / Float.ofNat (5 * n * n - 8 * i * (n - 2 * i))

theorem atMost_roughAngles {i n : ℕ} (hn : 0 < n) (hn' : n ≤ 2 ^ 16) (hi : 2 * i ≤ n) :
    Binary64.AtMost 0 (roughAngles.cos i n) ∧ Binary64.AtMost 0 (roughAngles.sin i n) := by
  obtain ⟨d, rfl⟩ := Nat.exists_eq_add_of_le hi
  have hd : 2 * i + d - 2 * i = d := Nat.add_sub_cancel_left _ _
  have hsquare : (2 * i + d) * (2 * i + d) ≤ 2 ^ 16 * 2 ^ 16 := Nat.mul_le_mul hn' hn'
  have hpos : 0 < (2 * i + d) * (2 * i + d) := Nat.mul_pos hn hn
  have hproduct : 8 * (i * d) ≤ (2 * i + d) * (2 * i + d) := by
    zify
    nlinarith [sq_nonneg (2 * i - d : ℤ)]
  have hside : 4 * (i * i) ≤ (2 * i + d) * (2 * i + d) := by nlinarith
  constructor
  · refine Binary64.atMost_fraction ((Nat.sub_le _ _).trans (Nat.le_add_right _ _)) ?_ ?_
    · rw [Nat.mul_assoc 4]
      omega
    · omega
  · show Binary64.AtMost 0 (Float.ofNat (32 * i * (2 * i + d - 2 * i)) /
      Float.ofNat (5 * (2 * i + d) * (2 * i + d) - 8 * i * (2 * i + d - 2 * i)))
    rw [hd, Nat.mul_assoc 32, Nat.mul_assoc 8, Nat.mul_assoc 5]
    refine Binary64.atMost_fraction ?_ ?_ ?_ <;> omega

theorem areBounded_roughAngles : Cosine.AreBounded roughAngles 6 := by
  intro j hj i hi
  have hpow : Nat.pow 2 j ≤ 32 := Nat.pow_le_pow_right Nat.two_pos (Nat.le_of_lt_succ hj)
  exact atMost_roughAngles (by omega) (by omega) (by omega)
/-- The row with a value in the strips of the first pixel of five, and zero elsewhere. -/
def edge (v : Float) : Vector Float Plane.samples :=
  Vector.ofFn fun x => if x.val < 13 then v else Float.ofNat 0

theorem luma_spot (i : Fin (5 * 5)) :
    spot.luma i = if i.val = 0 then Float.ofNat 255 else Float.ofNat 0 := by
  fin_cases i <;> rfl

theorem get_downsample_spot (y : Fin Plane.samples) :
    (spot.lumaPlane.downsample (by decide) (by decide)).get y =
      if y.val < 13 then edge (Float.ofNat 255) else edge (Float.ofNat 0) := by
  refine ext_get fun x => ?_
  have hx : x.val < 64 := x.isLt
  have hy : y.val < 64 := y.isLt
  rw [Plane.get_downsample_of_small (p := spot.lumaPlane) (by decide) (by decide) (by decide)
    (by decide), Plane.pixel]
  refine (get_ofFn _ _).trans ((luma_spot _).trans ?_)
  have hfirst : Plane.stripCentre y spot.lumaPlane.height * spot.lumaPlane.width +
      Plane.stripCentre x spot.lumaPlane.width = 0 ↔ y.val < 13 ∧ x.val < 13 := by
    simp only [Plane.stripCentre, Plane.samples, Image.lumaPlane, spot]
    omega
  by_cases hbright : y.val < 13
  · rw [if_pos hbright, edge, get_ofFn]
    exact if_congr (hfirst.trans (and_iff_right hbright)) rfl rfl
  · rw [if_neg (fun h => hbright (hfirst.1 h).1), if_neg hbright, edge, get_ofFn, ite_self]

def spotCoefficient : Fin Hash.size → Float := Spectrum.coefficient
  (Cosine.grid (Cosine.row roughAngles) (spot.lumaPlane.downsample (by decide) (by decide)))

/-- What stands in a column after the rows are transformed is an edge again. -/
theorem spotCoefficient_eq {k : Fin Hash.size} {v : Float}
    (hbright :
      (Cosine.row roughAngles (edge (Float.ofNat 255))).get (Spectrum.horizontal k) = v)
    (hdark : (Cosine.row roughAngles (edge (Float.ofNat 0))).get (Spectrum.horizontal k) =
      Float.ofNat 0) :
    spotCoefficient k = (Cosine.row roughAngles (edge v)).get (Spectrum.vertical k) *
      (Float.ofNat 2 / Float.ofNat 64) := by
  have hcolumn : (Vector.ofFn fun y => (Cosine.row roughAngles
      ((spot.lumaPlane.downsample (by decide) (by decide)).get y)).get
        (Spectrum.horizontal k)) = edge v := by
    refine ext_get fun y => ?_
    have hedge : (edge v).get y = if y.val < 13 then v else Float.ofNat 0 := get_ofFn _ y
    rw [get_ofFn, get_downsample_spot, hedge]
    split
    · exact hbright
    · exact hdark
  rw [spotCoefficient, Spectrum.coefficient, Cosine.get_grid, hcolumn]
  rfl

/-- The spot is stronger at the first horizontal frequency than at the second one. -/
theorem spotCoefficient_lt :
    spotCoefficient ⟨1, by decide⟩ < spotCoefficient ⟨0, by decide⟩ := by
  rw [spotCoefficient_eq (k := ⟨0, by decide⟩)
      (v := Binary64.ofPattern false 4659019626853972543)
      (by decide +kernel) (by decide +kernel),
    spotCoefficient_eq (k := ⟨1, by decide⟩)
      (v := Binary64.ofPattern false 4657683003043617886)
      (by decide +kernel) (by decide +kernel)]
  decide +kernel

/-- A spot of light and a light without rounding have a hash. In both the first coefficient is
above the second one, and so are their bits. -/
theorem binarised_at_median_spot :
    minSide ≤ spot.width ∧ minSide ≤ spot.height ∧
      (∀ k, (spotCoefficient k).isFinite = true) ∧
      spotCoefficient ⟨1, by decide⟩ < spotCoefficient ⟨0, by decide⟩ ∧
      (∃ f, ofPlane (Cosine.row roughAngles) spot.lumaPlane = .ok f ∧ 128 ≤ f.hash.ones ∧
        (f.hash.bit? 1 = some true → f.hash.bit? 0 = some true)) ∧
      minSide ≤ cornerLight.width ∧ minSide ≤ cornerLight.height ∧
      cornerCoefficient ⟨1, by decide⟩ < cornerCoefficient ⟨0, by decide⟩ ∧
      ∃ f, ofPlane (Cosine.row exactAngles) cornerLight = .ok f ∧ 128 ≤ f.hash.ones ∧
        (f.hash.bit? 1 = some true → f.hash.bit? 0 = some true) := by
  have hfinite : ∀ k, (spotCoefficient k).isFinite = true :=
    isFinite_coefficient_gray areBounded_roughAngles spot rfl rfl (by decide) (by decide)
      (by decide) (by decide)
  have hspot :
      Scalar.le (spotCoefficient ⟨1, by decide⟩) (spotCoefficient ⟨0, by decide⟩) = true :=
    (orderedBy_signedPattern.le_iff (hfinite _) (hfinite _)).2
      ((orderedBy_signedPattern.lt_iff (hfinite _) (hfinite _)).1
        (decide_eq_true spotCoefficient_lt)).le
  have hcorner : cornerCoefficient ⟨1, by decide⟩ < cornerCoefficient ⟨0, by decide⟩ :=
    cornerCoefficient_values.2.trans_lt cornerCoefficient_values.1
  obtain ⟨hdoubles, hexact⟩ := binarised_at_median
  obtain ⟨f, hf, -, hspotBits⟩ := hdoubles (Cosine.row roughAngles) spot
    (by decide) (by decide) (by decide) (by decide) hfinite
  obtain ⟨g, _, hg, rfl, hcornerBits, -⟩ := hexact (Cosine.row exactAngles) cornerLight
    (by decide) (by decide) (by decide) (by decide)
  exact ⟨by decide, by decide, hfinite, spotCoefficient_lt,
    ⟨f, hf, hspotBits.half, hspotBits.rising ⟨0, by decide⟩ ⟨1, by decide⟩ hspot⟩, by decide,
    by decide, hcorner, g, hg, hcornerBits.half,
    hcornerBits.rising ⟨0, by decide⟩ ⟨1, by decide⟩ (decide_eq_true hcorner.le)⟩

end FrameHash

end VideoFingerprint
