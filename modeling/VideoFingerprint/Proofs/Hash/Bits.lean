import VideoFingerprint.Proofs.Hash.Distance

/-!
Hashes made of bits. Bit `k` of the hash is the `k`th of them, and the hash has as many set
bits as there are among them.
-/

namespace VideoFingerprint.Hash

theorem testBit_numberOfBits (bs : List Bool) (k : Nat) :
    (numberOfBits bs).testBit k = bs.getD k false := by
  induction bs generalizing k with
  | nil => exact Nat.zero_testBit k
  | cons b bs ih =>
      have hlow : (b.toNat + 2 * numberOfBits bs) % 2 = b.toNat := by cases b <;> simp
      have hhigh : (b.toNat + 2 * numberOfBits bs) / 2 = numberOfBits bs := by
        have := b.toNat_lt
        omega
      cases k with
      | zero => rw [numberOfBits, Nat.testBit_zero, hlow]; cases b <;> rfl
      | succ k => rw [numberOfBits, Nat.testBit_succ, hhigh, ih, List.getD_cons_succ]

theorem getLsbD_ofBits (bs : List Bool) {k : Nat} (hk : k < size) :
    (ofBits bs).value.getLsbD k = bs.getD k false := by
  rw [ofBits, BitVec.getLsbD_ofNat, testBit_numberOfBits]
  simp only [size] at hk
  simp [hk]

theorem bit?_ofBits (bs : List Bool) {k : Nat} (hk : k < size) :
    (ofBits bs).bit? k = some (bs.getD k false) := by
  rw [bit?, if_pos hk, getLsbD_ofBits bs hk]

theorem sum_toNat_getD (bs : List Bool) :
    ∑ k ∈ Finset.range bs.length, (bs.getD k false).toNat = bs.count true := by
  induction bs with
  | nil => rfl
  | cons b bs ih =>
      simp only [List.length_cons, Finset.sum_range_succ', List.getD_cons_succ,
        List.getD_cons_zero, ih]
      cases b <;> simp

/-- As many bits are set as are among those that the hash is made of. -/
theorem ones_ofBits {bs : List Bool} (h : bs.length = size) :
    (ofBits bs).ones = bs.count true := by
  rw [ones, popCount_eq_sum, ← sum_toNat_getD, h]
  exact Finset.sum_congr rfl fun k hk =>
    congrArg Bool.toNat (getLsbD_ofBits bs (Finset.mem_range.1 hk))

theorem ofBits_replicate_true : ofBits (List.replicate size true) = ⟨BitVec.allOnes 256⟩ := by
  refine congrArg Hash.mk (BitVec.eq_of_getLsbD_eq fun k hk => ?_)
  have hlt : k < size := hk
  have hset : (List.replicate size true).getD k false = true := by
    rw [List.getD_eq_getElem?_getD, List.getElem?_replicate_of_lt hlt, Option.getD_some]
  refine (getLsbD_ofBits _ hk).trans ?_
  rw [hset, BitVec.getLsbD_allOnes, decide_eq_true hk]

end VideoFingerprint.Hash
