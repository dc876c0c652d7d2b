import Mathlib.Data.List.Chain
import VideoFingerprint.Fingerprint.Basic

/-!
The order of the features of a fingerprint, as a relation between neighbours and between any
two of them.
-/

namespace VideoFingerprint

/-- A feature that may come right after another one. -/
def Feature.Follows (f g : Feature) : Prop := f.frame < g.frame ∧ ¬ g.time < f.time

instance (f g : Feature) : Decidable (f.Follows g) := inferInstanceAs (Decidable (_ ∧ _))

namespace Fingerprint

theorem orderFaultAfter?_eq_none_iff {index : Nat} {f : Feature} {fs : List Feature} :
    orderFaultAfter? index f fs = none ↔ (f :: fs).IsChain Feature.Follows := by
  induction fs generalizing index f with
  | nil => simp [orderFaultAfter?]
  | cons g fs ih =>
      rw [orderFaultAfter?, Option.or_eq_none_iff, Feature.orderFault?_eq_none_iff, ih,
        List.isChain_cons_cons]
      rfl

theorem orderFault?_eq_none_iff {fs : List Feature} :
    orderFault? fs = none ↔ fs.IsChain Feature.Follows := by
  cases fs with
  | nil => simp [orderFault?]
  | cons f fs => exact orderFaultAfter?_eq_none_iff

/-- A list of features is valid when each is in range and each follows the one before. -/
theorem firstFault?_eq_none_iff {fs : List Feature} :
    firstFault? fs = none ↔
      (∀ f ∈ fs, Quality.inRange f.quality = true ∧ Feature.timeInRange f.time = true) ∧
        fs.IsChain Feature.Follows := by
  rw [firstFault?, Option.or_eq_none_iff, rangeFault?_eq_none_iff, orderFault?_eq_none_iff]

/-- Frame numbers rise strictly through a fingerprint. -/
theorem pairwise_frame (p : Fingerprint) :
    p.features.Pairwise fun f g => f.frame < g.frame := by
  have hchain : p.features.IsChain fun f g => f.frame < g.frame :=
    (firstFault?_eq_none_iff.1 p.valid).2.imp fun f g h => h.1
  have : IsTrans Feature fun f g => f.frame < g.frame := ⟨fun _ _ _ => Nat.lt_trans⟩
  exact List.isChain_iff_pairwise.1 hchain

theorem pairwise_frame_eligible (p : Fingerprint) (minQuality : Float) :
    (p.eligible minQuality).Pairwise fun f g => f.frame < g.frame :=
  p.pairwise_frame.sublist List.filter_sublist

end Fingerprint

end VideoFingerprint
