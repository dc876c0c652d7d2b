import VideoFingerprint.Proofs.Frame.Cosine
import VideoFingerprint.Proofs.Frame.Spectrum
import VideoFingerprint.Proofs.Number.Bounds

/-!
Coefficients that are finite. Each step of the transform of a row at most doubles what is in
the row, so the values of a transformed row are at most four times larger for each halving of
its length. The samples of an image are bytes, far too small for that to reach infinity.
-/

namespace VideoFingerprint

open Binary64

/-- A row of doubles that are at most `2 ^ e` from zero. -/
def IsBounded {n : ℕ} (e : ℕ) (x : Vector Float n) : Prop := ∀ i (h : i < n), AtMost e x[i]

namespace Cosine

variable {k e : ℕ} {angles : Angles Float}

def AreBounded (angles : Angles Float) (k : ℕ) : Prop := ∀ j < k, ∀ i < Nat.pow 2 j,
  AtMost 0 (angles.cos (2 * i + 1) (16 * Nat.pow 2 j)) ∧
    AtMost 0 (angles.sin (2 * i + 1) (16 * Nat.pow 2 j))

theorem AreBounded.mono {j : ℕ} (h : AreBounded angles k) (hj : j ≤ k) : AreBounded angles j :=
  fun i hi => h i (hi.trans_le hj)

section Parts

variable {x : Vector Float (Nat.pow 2 (k + 2))}

theorem atMost_outerDifference (hx : IsBounded e x) (he : e < 1023) (i : Fin (Nat.pow 2 k)) :
    AtMost (e + 1) (outerDifference x i) :=
  (hx _ _).sub (hx _ _) he

theorem atMost_innerDifference (hx : IsBounded e x) (he : e < 1023) (i : Fin (Nat.pow 2 k)) :
    AtMost (e + 1) (innerDifference x i) :=
  (hx _ _).sub (hx _ _) he

theorem isBounded_oppositeSums (hx : IsBounded e x) (he : e < 1023) :
    IsBounded (e + 1) (oppositeSums x) := by
  intro i hi
  rw [oppositeSums, Vector.getElem_ofFn]
  exact (hx _ _).add (hx _ _) he

variable (hangles : AreBounded angles (k + 2))

include hangles

/-- A turn by an angle at most doubles the two differences. -/
theorem atMost_turned (hx : IsBounded e x) (he : e + 2 ≤ 1023) (i : Fin (Nat.pow 2 k)) :
    AtMost (e + 2) (outerDifference x i * angles.cos (2 * i.val + 1) (16 * Nat.pow 2 k)
      + innerDifference x i * angles.sin (2 * i.val + 1) (16 * Nat.pow 2 k)) ∧
    AtMost (e + 2) (innerDifference x i * angles.cos (2 * i.val + 1) (16 * Nat.pow 2 k)
      - outerDifference x i * angles.sin (2 * i.val + 1) (16 * Nat.pow 2 k)) := by
  obtain ⟨hcos, hsin⟩ := hangles k (by omega) i i.isLt
  have hle : e + 1 + 0 ≤ 1023 := by omega
  have houter := atMost_outerDifference hx (by omega) i
  have hinner := atMost_innerDifference hx (by omega) i
  exact ⟨(houter.mul hcos hle).add (hinner.mul hsin hle) (by omega),
    (hinner.mul hcos hle).sub (houter.mul hsin hle) (by omega)⟩

theorem isBounded_turnedDifferences (hx : IsBounded e x) (he : e + 2 ≤ 1023) :
    IsBounded (e + 2) (turnedDifferences x angles) := by
  intro i hi
  rw [turnedDifferences, Vector.getElem_ofFn]
  exact (atMost_turned hangles hx he _).1

theorem isBounded_crossedDifferences (hx : IsBounded e x) (he : e + 2 ≤ 1023) :
    IsBounded (e + 2) (crossedDifferences x angles) := by
  intro j hj
  rw [crossedDifferences, Vector.getElem_ofFn]
  dsimp only
  split
  · exact (atMost_turned hangles hx he _).2
  · exact (atMost_turned hangles hx he _).2.neg he

end Parts

theorem isBounded_split (hangles : AreBounded angles k) {x : Vector Float (Nat.pow 2 k)}
    (hx : IsBounded e x) (he : e + 2 * k ≤ 1023) :
    IsBounded (e + 2 * k) (split angles k x) := by
  induction k using Nat.twoStepInduction generalizing e with
  | zero => exact hx
  | one =>
      have hroot : AtMost 0 (Float.sqrt (Float.ofNat 1 / Float.ofNat 2)) := by
        rw [AtMost]
        decide +kernel
      have hfirst : AtMost e x[0] := hx 0 (by decide)
      have hsecond : AtMost e x[1] := hx 1 (by decide)
      intro i hi
      obtain rfl | rfl : i = 0 ∨ i = 1 := by
        have : i < 2 := hi
        omega
      · exact (hfirst.add hsecond (by omega)).mono (by omega)
      · exact ((hfirst.sub hsecond (by omega)).mul hroot (by omega)).mono (by omega)
  | more k ih ih' =>
      have hsums := ih' (hangles.mono (by omega))
        (isBounded_oppositeSums hx (by omega)) (by omega)
      have hturned := ih (hangles.mono (by omega))
        (isBounded_turnedDifferences hangles hx (by omega)) (by omega)
      have hcrossed := ih (hangles.mono (by omega))
        (isBounded_crossedDifferences hangles hx (by omega)) (by omega)
      have hsigned {m : ℕ} {hm : m < Nat.pow 2 k} {p : Prop} [Decidable p] :
          AtMost (e + 2 + 2 * k) (if p then -(split angles k (crossedDifferences x angles))[m]
            else (split angles k (crossedDifferences x angles))[m]) := by
        split
        · exact (hcrossed m hm).neg (by omega)
        · exact hcrossed m hm
      intro m hm
      have hn : Nat.pow 2 (k + 2) = 4 * Nat.pow 2 k := two_pow_add_two k
      have hh : Nat.pow 2 (k + 1) = 2 * Nat.pow 2 k := Nat.mul_comm (Nat.pow 2 k) 2
      obtain ⟨i, hi, rfl⟩ | rfl | rfl | ⟨i, hi, hj, rfl | rfl⟩ := split_cases (hm.trans_eq hn)
      · rw [getElem_split_even x angles (hi.trans_eq hh.symm) hm]
        exact (hsums i _).mono (by omega)
      · rw [getElem_split_one x angles hm (Nat.two_pow_pos k)]
        exact (hturned 0 _).mono (by omega)
      · rw [getElem_split_last x angles hm (Nat.two_pow_pos k)]
        exact ((hcrossed 0 _).neg (by omega)).mono (by omega)
      · rw [getElem_split_before x angles hi hj hm]
        exact ((hturned i hi).add hsigned (by omega)).mono (by omega)
      · rw [getElem_split_after x angles hi hj hm]
        exact ((hturned i hi).sub hsigned (by omega)).mono (by omega)

/-- The coefficients of samples that are far from infinity are finite. -/
theorem isFinite_coefficient (hangles : AreBounded angles 6) {m : Grid Float Plane.samples}
    (hm : ∀ x y, AtMost e ((m.get y).get x)) (he : e + 24 ≤ 1023) (k : Fin Hash.size) :
    (Spectrum.coefficient (grid (row angles) m) k).isFinite = true := by
  have hrow {e : ℕ} {x : Vector Float Plane.samples} (hx : ∀ i, AtMost e (x.get i))
      (he : e + 12 ≤ 1023) (i : Fin Plane.samples) :
      AtMost (e + 12) ((row angles x).get i) := by
    have hsplit := row_eq_split (k := 6) angles (by decide) x
    have hbounded := isBounded_split (k := 6) (x := x) hangles (fun i hi => hx ⟨i, hi⟩) he
    rw [← hsplit] at hbounded
    exact hbounded i i.isLt
  have hscale : AtMost 0 (Float.ofNat 2 / Float.ofNat 64) :=
    atMost_fraction (by decide) (by decide) (by decide)
  rw [Spectrum.coefficient, get_grid]
  refine (AtMost.mul (e := e + 12 + 12) (hrow (fun y => ?_) (by omega) _) hscale
    (by omega)).isFinite (by omega)
  rw [get_ofFn]
  exact hrow (fun x => hm x y) (by omega) _

end Cosine

namespace Plane

variable {α : Type} [Scalar α] {p : Plane α}

theorem smoothOnce_of_small (hw : windowFor p.width ≤ 1) (hh : windowFor p.height ≤ 1) :
    p.smoothOnce = p := by
  have hkeep {size count window : ℕ} (line : (i : ℕ) → i < count → Line size)
      (h : window ≤ 1) (data : Vector α size) :
      Nat.fold count (fun i hi => boxFilter (line i hi) window) data = data := by
    induction count generalizing data with
    | zero => rfl
    | succ n ih => rw [Nat.fold_succ, ih, boxFilter, if_pos h]
  rw [smoothOnce, hkeep _ hw, hkeep _ hh]

/-- The samples of a small plane are among its pixels. -/
theorem get_downsample_of_small (hw : 0 < p.width) (hh : 0 < p.height)
    (hw' : windowFor p.width ≤ 1) (hh' : windowFor p.height ≤ 1) (x y : Fin samples) :
    ((p.downsample hw hh).get y).get x =
      p.pixel (stripCentre x p.width) (stripCentre y p.height)
      (stripCentre_lt hw) (stripCentre_lt hh) := by
  have hdecimate {q : Plane α} (h : q = p) (hqw : 0 < q.width) (hqh : 0 < q.height) :
      q.decimate hqw hqh = p.decimate hw hh := by
    subst h
    rfl
  have hsmooth : p.smoothOnce.smoothOnce = p := by
    rw [smoothOnce_of_small hw' hh', smoothOnce_of_small hw' hh']
  have hsamples : p.downsample hw hh = p.decimate hw hh := hdecimate hsmooth hw hh
  rw [hsamples, decimate, get_ofFn, get_ofFn]

end Plane

/-- The coefficients of a small gray image are finite. -/
theorem FrameHash.isFinite_coefficient_gray {angles : Angles Float}
    (hangles : Cosine.AreBounded angles 6) (m : Image) (hchannels : m.channels = .gray)
    {xs : ByteArray} (hsamples : m.samples = .bytes xs) (hw : 0 < m.width) (hh : 0 < m.height)
    (hw' : Plane.windowFor m.width ≤ 1) (hh' : Plane.windowFor m.height ≤ 1)
    (k : Fin Hash.size) :
    (Spectrum.coefficient
      (Cosine.grid (Cosine.row angles) (m.lumaPlane.downsample hw hh)) k).isFinite = true := by
  refine Cosine.isFinite_coefficient (e := 8) hangles (fun x y => ?_) (by decide) k
  rw [Plane.get_downsample_of_small (p := m.lumaPlane) hw hh hw' hh', Plane.pixel]
  refine (congrArg (AtMost 8) (get_ofFn _ _)).mpr ?_
  rw [Image.luma, hchannels, hsamples]
  refine atMost_ofNat ?_ (by decide)
  simp only [Samples.byte]
  split
  · exact (UInt8.toNat_lt _).le
  · exact Nat.zero_le _

end VideoFingerprint
