import Mathlib.Algebra.Group.Nat.Defs
import VideoFingerprint.Hash.Hex

/-!
Reading hashes. A text is a hash when it is 64 hexadecimal digits, in either case; written
hashes read back.
-/

namespace VideoFingerprint

/-! ### Digits in either case -/

namespace Text

def IsHexDigit (c : Char) : Prop :=
  ('0' ≤ c ∧ c ≤ '9') ∨ ('a' ≤ c ∧ c ≤ 'f') ∨ ('A' ≤ c ∧ c ≤ 'F')

theorem isSome_hexValue?_iff {c : Char} : (hexValue? c).isSome = true ↔ IsHexDigit c := by
  unfold hexValue? IsHexDigit
  split
  · simp_all
  · split
    · simp_all
    · split <;> simp_all

/-- Only capital letters become other characters in lower case. -/
theorem exists_of_toLower_ne {c : Char} (h : c.toLower ≠ c) :
    ∃ n < 26, c = Char.ofNat (65 + n) := by
  unfold Char.toLower at h
  split at h
  · rename_i hupper
    simp only [ge_iff_le, UInt32.le_iff_toNat_le] at hupper
    have hlow : 65 ≤ c.toNat := hupper.1
    have hhigh : c.toNat ≤ 90 := hupper.2
    exact ⟨c.toNat - 65, by omega, by rw [Nat.add_sub_cancel' hlow, Char.ofNat_toNat]⟩
  · exact absurd rfl h

theorem hexValue?_toLower (c : Char) : hexValue? c.toLower = hexValue? c := by
  by_cases h : c.toLower = c
  · rw [h]
  · obtain ⟨n, hn, rfl⟩ := exists_of_toLower_ne h
    revert n
    decide

theorem numberOfHex_map_toLower (cs : List Char) :
    numberOfHex (cs.map Char.toLower) = numberOfHex cs := by
  simp only [numberOfHex, List.foldl_map, hexValue?_toLower]

theorem hexValue?_lt {c : Char} {n : Nat} (h : hexValue? c = some n) : n < 16 := by
  unfold hexValue? at h
  split at h
  · rename_i hdigit
    have hle : c.toNat ≤ '9'.toNat := hdigit.2
    cases h
    simp only [Char.reduceToNat] at hle ⊢
    omega
  · split at h
    · rename_i hlower
      have hle : c.toNat ≤ 'f'.toNat := hlower.2
      cases h
      simp only [Char.reduceToNat] at hle ⊢
      omega
    · split at h
      · rename_i hupper
        have hle : c.toNat ≤ 'F'.toNat := hupper.2
        cases h
        simp only [Char.reduceToNat] at hle ⊢
        omega
      · cases h

theorem utf8Size_of_isHexDigit {c : Char} (h : IsHexDigit c) : c.utf8Size = 1 := by
  have hle : c.toNat ≤ 102 := by
    rcases h with ⟨-, hle⟩ | ⟨-, hle⟩ | ⟨-, hle⟩
    · exact Nat.le_trans (show c.toNat ≤ '9'.toNat from hle) (by decide)
    · exact hle
    · exact Nat.le_trans (show c.toNat ≤ 'F'.toNat from hle) (by decide)
  rw [Char.utf8Size_eq_one_iff, UInt32.le_iff_toNat_le]
  exact Nat.le_trans hle (by decide)

/-- Hexadecimal digits write a number with four bits for each of them. -/
theorem numberOfHex_lt (cs : List Char) : numberOfHex cs < 16 ^ cs.length := by
  suffices hfrom : ∀ n : Nat, cs.foldl (fun n c => 16 * n + (hexValue? c).getD 0) n <
      (n + 1) * 16 ^ cs.length by
    simpa [numberOfHex] using hfrom 0
  induction cs with
  | nil => simp
  | cons c cs ih =>
      intro n
      have hc : (hexValue? c).getD 0 < 16 := by
        cases hvalue : hexValue? c with
        | none => decide
        | some m => exact hexValue?_lt hvalue
      rw [List.foldl_cons, List.length_cons]
      refine Nat.lt_of_lt_of_le (ih _) ?_
      rw [Nat.pow_succ, Nat.mul_comm (16 ^ _) 16, ← Nat.mul_assoc]
      exact Nat.mul_le_mul_right _ (by omega)

end Text

/-! ### Reading what is written -/

theorem Text.utf8Size_hexDigit : ∀ n < 16, (Text.hexDigit n).utf8Size = 1 := by decide

theorem utf8ByteSize_ofList {cs : List Char} (h : ∀ c ∈ cs, c.utf8Size = 1) :
    (String.ofList cs).utf8ByteSize = cs.length := by
  induction cs with
  | nil => rfl
  | cons c cs ih =>
      rw [String.ofList_cons, String.utf8ByteSize_append,
        ih fun d hd => h d (List.mem_cons_of_mem c hd), String.utf8ByteSize_singleton,
        h c List.mem_cons_self, List.length_cons, Nat.add_comm]

namespace Hash

def digit (h : Hash) (i : Nat) : Nat := h.value.toNat / 16 ^ (hexLength - 1 - i) % 16

theorem hexDigits_eq (h : Hash) :
    h.hexDigits = (List.range hexLength).map fun i => Text.hexDigit (h.digit i) := by
  rw [hexDigits]
  refine List.map_congr_left fun i _ => ?_
  rw [digit, BitVec.extractLsb'_toNat, Nat.shiftRight_eq_div_pow, Nat.pow_mul]

theorem mem_hexDigits {h : Hash} {c : Char} (hc : c ∈ h.hexDigits) :
    ∃ n < 16, c = Text.hexDigit n := by
  rw [hexDigits_eq] at hc
  obtain ⟨i, -, rfl⟩ := List.mem_map.1 hc
  exact ⟨h.digit i, Nat.mod_lt _ (by omega), rfl⟩

/-- After `k` digits the number read is the hash without its other digits. -/
theorem numberOfHex_take (h : Hash) {k : Nat} (hk : k ≤ hexLength) :
    Text.numberOfHex ((List.range k).map fun i => Text.hexDigit (h.digit i)) =
      h.value.toNat / 16 ^ (hexLength - k) := by
  induction k with
  | zero =>
      refine (Nat.div_eq_of_lt ?_).symm
      exact h.value.isLt
  | succ k ih =>
      have hdigit : h.digit k < 16 := Nat.mod_lt _ (by omega)
      have ih := ih (by omega)
      rw [Text.numberOfHex] at ih ⊢
      rw [List.range_succ, List.map_append, List.foldl_append, ih, List.map_singleton,
        List.foldl_cons, List.foldl_nil, Text.hexValue?_hexDigit _ hdigit, Option.getD_some,
        digit, show hexLength - k = (hexLength - (k + 1)) + 1 by omega, Nat.pow_succ,
        ← Nat.div_div_eq_div_mul, show hexLength - 1 - k = hexLength - (k + 1) by omega,
        Nat.div_add_mod]

theorem numberOfHex_hexDigits (h : Hash) : Text.numberOfHex h.hexDigits = h.value.toNat := by
  rw [hexDigits_eq, numberOfHex_take h (Nat.le_refl _), Nat.sub_self, Nat.pow_zero,
    Nat.div_one]

theorem parse_toHex (h : Hash) : parse h.toHex = .ok h := by
  have hvalid : h.hexDigits.find? (fun c => (Text.hexValue? c).isNone) = none := by
    rw [List.find?_eq_none]
    intro c hc
    obtain ⟨n, hn, rfl⟩ := mem_hexDigits hc
    simp [Text.hexValue?_hexDigit n hn]
  have hsize : (String.ofList h.hexDigits).utf8ByteSize = hexLength := by
    rw [utf8ByteSize_ofList, length_hexDigits]
    intro c hc
    obtain ⟨n, hn, rfl⟩ := mem_hexDigits hc
    exact Text.utf8Size_hexDigit n hn
  rw [parse, toHex, String.toList_ofList, hvalid]
  dsimp only
  rw [if_pos hsize, numberOfHex_hexDigits, BitVec.ofNat_toNat, BitVec.setWidth_eq]

/-- The texts that are read as hashes: 64 digits in either case, whose number is the hash. -/
theorem parse_eq_ok_iff {cs : List Char} {h : Hash} :
    parse (String.ofList cs) = .ok h ↔
      cs.length = hexLength ∧ (∀ c ∈ cs, Text.IsHexDigit c) ∧
      h.value.toNat = Text.numberOfHex cs := by
  have hdigits : (cs.find? fun c => (Text.hexValue? c).isNone) = none ↔
      ∀ c ∈ cs, Text.IsHexDigit c := by
    simp [List.find?_eq_none, ← Text.isSome_hexValue?_iff, Option.isSome_iff_ne_none]
  have hsize (hcs : ∀ c ∈ cs, Text.IsHexDigit c) :
      (String.ofList cs).utf8ByteSize = cs.length :=
    utf8ByteSize_ofList fun c hc => Text.utf8Size_of_isHexDigit (hcs c hc)
  have hvalue (hlength : cs.length = hexLength) :
      Hash.mk (BitVec.ofNat 256 (Text.numberOfHex cs)) = h ↔
        h.value.toNat = Text.numberOfHex cs := by
    have hlt := Text.numberOfHex_lt cs
    rw [hlength, show 16 ^ hexLength = 2 ^ 256 by decide] at hlt
    obtain ⟨v⟩ := h
    rw [Hash.mk.injEq, ← BitVec.toNat_inj, BitVec.toNat_ofNat, Nat.mod_eq_of_lt hlt, eq_comm]
  rw [parse, String.toList_ofList]
  split
  · rename_i c hc
    refine iff_of_false (by simp) fun hall => ?_
    rw [hdigits.2 hall.2.1] at hc
    cases hc
  · rename_i hnone
    have hcs := hdigits.1 hnone
    rw [hsize hcs]
    split
    · rename_i hlength
      rw [Except.ok.injEq, hvalue hlength]
      exact ⟨fun h => ⟨hlength, hcs, h⟩, fun h => h.2.2⟩
    · rename_i hlength
      exact iff_of_false (by simp) fun hall => hlength hall.1

end Hash

end VideoFingerprint
