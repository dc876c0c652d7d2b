import Mathlib.Data.List.Basic
import Mathlib.Data.String.Basic
import Mathlib.Tactic.Ring
import VideoFingerprint.Proofs.Hash.Bits
import VideoFingerprint.Proofs.Hash.Hex

/-!
The views of a hash: its number, its words, its digits and its bits. Words and digits both
write the number in a base, so one induction says that lists of either kind are ordered as the
numbers are. A bit of the number is found in one word and in one digit.
-/

namespace VideoFingerprint

/-! ### Writing in a base -/

namespace Text

variable {α : Type} {b : ℕ} {value : α → ℕ} {x : α} {xs ys : List α}

/-- The number that digits with the given values write in a base, most significant first. -/
def numberIn (b : ℕ) (value : α → ℕ) (xs : List α) : ℕ :=
  xs.foldl (fun n x => b * n + value x) 0

theorem numberIn_append_singleton :
    numberIn b value (xs ++ [x]) = b * numberIn b value xs + value x := by
  rw [numberIn, List.foldl_append]
  rfl

theorem numberIn_cons :
    numberIn b value (x :: xs) = value x * b ^ xs.length + numberIn b value xs := by
  induction xs using List.reverseRecOn with
  | nil => simp [numberIn]
  | append_singleton xs y ih =>
      rw [← List.cons_append, numberIn_append_singleton, ih, numberIn_append_singleton,
        List.length_append, List.length_singleton, Nat.pow_succ]
      ring

theorem numberIn_lt (h : ∀ x ∈ xs, value x < b) : numberIn b value xs < b ^ xs.length := by
  induction xs with
  | nil => exact Nat.one_pos
  | cons x xs ih =>
      obtain ⟨hx, hxs⟩ := List.forall_mem_cons.1 h
      calc
        numberIn b value (x :: xs) = value x * b ^ xs.length + numberIn b value xs :=
        numberIn_cons
        _ < value x * b ^ xs.length + b ^ xs.length := Nat.add_lt_add_left (ih hxs) _
        _ = (value x + 1) * b ^ xs.length := by ring
        _ ≤ b * b ^ xs.length := Nat.mul_le_mul_right _ hx
        _ = b ^ (x :: xs).length := by rw [List.length_cons, Nat.pow_succ, Nat.mul_comm]

/-- Numbers with remainders are ordered by their quotients first. -/
theorem mul_add_lt_iff (q q' : ℕ) {m r r' : ℕ} (hr : r < m) (hr' : r' < m) :
    (q * m + r < q' * m + r' ↔ q < q' ∨ q = q' ∧ r < r') ∧
    (q * m + r = q' * m + r' ↔ q = q' ∧ r = r') := by
  have hnext {a c : ℕ} (h : a < c) : a * m + m ≤ c * m := by
    rw [← Nat.succ_mul]
    exact Nat.mul_le_mul_right m h
  rcases lt_trichotomy q q' with hq | rfl | hq
  · have := hnext hq
    omega
  · omega
  · have := hnext hq
    omega

/-- Digits of two lists with values below the base, which are ordered as these are. -/
structure Ranked [LT α] (b : ℕ) (value : α → ℕ) (xs ys : List α) : Prop where
  left_lt : ∀ x ∈ xs, value x < b
  right_lt : ∀ y ∈ ys, value y < b
  lt_iff : ∀ x ∈ xs, ∀ y ∈ ys, x < y ↔ value x < value y
  eq_iff : ∀ x ∈ xs, ∀ y ∈ ys, x = y ↔ value x = value y

/-- Lists with the same number of digits are ordered as the numbers that they write. -/
theorem Ranked.numberIn_lt_iff [LT α] (h : Ranked b value xs ys)
    (hlength : xs.length = ys.length) :
    (xs < ys ↔ numberIn b value xs < numberIn b value ys) ∧
    (xs = ys ↔ numberIn b value xs = numberIn b value ys) := by
  induction xs generalizing ys with
  | nil =>
      obtain rfl := List.length_eq_zero_iff.1 hlength.symm
      simp
  | cons x xs ih =>
      cases ys with
      | nil => cases hlength
      | cons y ys =>
          have hlength : xs.length = ys.length := Nat.succ.inj hlength
          have htail : Ranked b value xs ys :=
            ⟨fun z hz => h.left_lt z (List.mem_cons_of_mem x hz),
              fun z hz => h.right_lt z (List.mem_cons_of_mem y hz),
              fun z hz w hw => h.lt_iff z (List.mem_cons_of_mem x hz) w
                (List.mem_cons_of_mem y hw),
              fun z hz w hw => h.eq_iff z (List.mem_cons_of_mem x hz) w
                (List.mem_cons_of_mem y hw)⟩
          obtain ⟨hlt, heq⟩ := ih htail hlength
          have hbound : numberIn b value xs < b ^ ys.length :=
            hlength ▸ numberIn_lt htail.left_lt
          obtain ⟨hlt', heq'⟩ :=
            mul_add_lt_iff (value x) (value y) hbound (numberIn_lt htail.right_lt)
          rw [numberIn_cons, numberIn_cons, hlength, hlt', heq', List.cons_lt_cons_iff,
            List.cons.injEq, hlt, heq, h.lt_iff x List.mem_cons_self y List.mem_cons_self,
            h.eq_iff x List.mem_cons_self y List.mem_cons_self]
          exact ⟨Iff.rfl, Iff.rfl⟩

/-! ### Hexadecimal digits -/

def IsWritten (c : Char) : Prop := ∃ n < 16, c = hexDigit n

theorem numberOfHex_eq (cs : List Char) :
    numberOfHex cs = numberIn 16 (fun c => (hexValue? c).getD 0) cs := rfl

theorem ranked_of_isWritten {cs ds : List Char} (hcs : ∀ c ∈ cs, IsWritten c)
    (hds : ∀ d ∈ ds, IsWritten d) :
    Ranked 16 (fun c => (hexValue? c).getD 0) cs ds := by
  have hvalue {c : Char} {n : ℕ} (hn : n < 16) (hc : c = hexDigit n) :
      (hexValue? c).getD 0 = n := by
    rw [hc, hexValue?_hexDigit n hn, Option.getD_some]
  have hlt : ∀ m < 16, ∀ n < 16, hexDigit m < hexDigit n ↔ m < n := by decide
  have heq : ∀ m < 16, ∀ n < 16, hexDigit m = hexDigit n ↔ m = n := by decide
  have hbound {c : Char} (hc : IsWritten c) : (hexValue? c).getD 0 < 16 := by
    obtain ⟨n, hn, hc⟩ := hc
    rw [hvalue hn hc]
    exact hn
  refine ⟨fun c hc => hbound (hcs c hc), fun d hd => hbound (hds d hd), fun c hc d hd => ?_,
    fun c hc d hd => ?_⟩
  · obtain ⟨m, hm, hc⟩ := hcs c hc
    obtain ⟨n, hn, hd⟩ := hds d hd
    rw [hvalue hm hc, hvalue hn hd, hc, hd, hlt m hm n hn]
  · obtain ⟨m, hm, hc⟩ := hcs c hc
    obtain ⟨n, hn, hd⟩ := hds d hd
    rw [hvalue hm hc, hvalue hn hd, hc, hd, heq m hm n hn]

theorem isWritten_toLower {c : Char} (h : IsHexDigit c) : IsWritten c.toLower := by
  have hcode : c.toNat < 103 := by
    rcases h with ⟨-, hle⟩ | ⟨-, hle⟩ | ⟨-, hle⟩
    · exact Nat.lt_of_le_of_lt (show c.toNat ≤ '9'.toNat from hle) (by decide)
    · exact Nat.lt_succ_of_le hle
    · exact Nat.lt_of_le_of_lt (show c.toNat ≤ 'F'.toNat from hle) (by decide)
  have hall : ∀ n < 103, (hexValue? (Char.ofNat n)).isSome →
      ∃ m < 16, (Char.ofNat n).toLower = hexDigit m := by
    decide +kernel
  have hdigit := hall c.toNat hcode
  rw [Char.ofNat_toNat] at hdigit
  exact hdigit (isSome_hexValue?_iff.2 h)

end Text

namespace Hash

variable {a b h : Hash} {s : String} {i : ℕ}

/-! ### Texts -/

theorem parse_eq_ok_iff_text :
    parse s = .ok h ↔ s.length = hexLength ∧ (∀ c ∈ s.toList, Text.IsHexDigit c) ∧
    h.value.toNat = Text.numberOfHex s.toList := by
  rw [← String.length_toList, ← parse_eq_ok_iff, String.ofList_toList]

theorem exists_parse_iff : (∃ h, parse s = .ok h) ↔ s.length = hexLength ∧
    ∀ c ∈ s.toList, Text.IsHexDigit c := by
  constructor
  · rintro ⟨h, hh⟩
    obtain ⟨hlength, hdigits, -⟩ := parse_eq_ok_iff_text.1 hh
    exact ⟨hlength, hdigits⟩
  · rintro ⟨hlength, hdigits⟩
    have hvalue : Text.numberOfHex s.toList < 2 ^ 256 := by
      have hlt := Text.numberOfHex_lt s.toList
      rwa [String.length_toList, hlength, show 16 ^ hexLength = 2 ^ 256 by decide] at hlt
    refine ⟨⟨BitVec.ofNat 256 (Text.numberOfHex s.toList)⟩,
      parse_eq_ok_iff_text.2 ⟨hlength, hdigits, ?_⟩⟩
    rw [BitVec.toNat_ofNat, Nat.mod_eq_of_lt hvalue]

theorem parse_eq_digit_iff {c : Char} : parse s = .error (.digit c) ↔ ∃ before after,
    s.toList = before ++ c :: after ∧ (∀ d ∈ before, Text.IsHexDigit d) ∧
    ¬ Text.IsHexDigit c := by
  have hfind : (s.toList.find? fun c => (Text.hexValue? c).isNone) = some c ↔ ∃ before after,
      s.toList = before ++ c :: after ∧ (∀ d ∈ before, Text.IsHexDigit d) ∧
      ¬ Text.IsHexDigit c := by
    rw [List.find?_eq_some_iff_append]
    simp only [← Text.isSome_hexValue?_iff, Option.not_isSome_iff_eq_none,
      Option.isNone_iff_eq_none, Bool.not_eq_true', Option.isNone_eq_false_iff]
    constructor
    · rintro ⟨hc, before, after, hsplit, hbefore⟩
      exact ⟨before, after, hsplit, hbefore, hc⟩
    · rintro ⟨before, after, hsplit, hbefore, hc⟩
      exact ⟨hc, before, after, hsplit, hbefore⟩
  rw [← hfind, parse]
  cases s.toList.find? fun c => (Text.hexValue? c).isNone with
  | some d => simp
  | none =>
      dsimp only
      split <;> simp

theorem parse_eq_length_iff {n : ℕ} : parse s = .error (.length n) ↔
    n = s.utf8ByteSize ∧ s.length ≠ hexLength ∧ ∀ c ∈ s.toList, Text.IsHexDigit c := by
  have hfind : (s.toList.find? fun c => (Text.hexValue? c).isNone) = none ↔
      ∀ c ∈ s.toList, Text.IsHexDigit c := by
    simp [List.find?_eq_none, ← Text.isSome_hexValue?_iff, Option.isSome_iff_ne_none]
  rw [parse]
  cases hfirst : s.toList.find? fun c => (Text.hexValue? c).isNone with
  | some d => simp [← hfind, hfirst]
  | none =>
      have hdigits := hfind.1 hfirst
      have hsize : s.utf8ByteSize = s.length := by
        have hbytes :=
          utf8ByteSize_ofList fun c hc => Text.utf8Size_of_isHexDigit (hdigits c hc)
        rwa [String.ofList_toList, String.length_toList] at hbytes
      dsimp only
      rw [hsize]
      split
      · rename_i hlength
        exact iff_of_false (by simp) fun hwrong => hwrong.2.1 hlength
      · rename_i hlength
        rw [Except.error.injEq, HashParseError.length.injEq, eq_comm]
        exact ⟨fun hn => ⟨hn, hlength, hdigits⟩, And.left⟩

/-- A text that is read is written again in lower case. -/
theorem toHex_of_parse (hs : parse s = .ok h) : h.toHex = s.toLower := by
  obtain ⟨hlength, hdigits, hvalue⟩ := parse_eq_ok_iff_text.1 hs
  have hlower : ∀ c ∈ s.toList.map Char.toLower, Text.IsWritten c := by
    intro c hc
    obtain ⟨d, hd, rfl⟩ := List.mem_map.1 hc
    exact Text.isWritten_toLower (hdigits d hd)
  have hranked := Text.ranked_of_isWritten (fun c => mem_hexDigits (h := h)) hlower
  obtain ⟨-, heq⟩ :=
    hranked.numberIn_lt_iff
      (by rw [length_hexDigits, List.length_map, String.length_toList, hlength])
  have hlists : h.hexDigits = s.toList.map Char.toLower := by
    rw [heq, ← Text.numberOfHex_eq, ← Text.numberOfHex_eq, numberOfHex_hexDigits,
      Text.numberOfHex_map_toLower, hvalue]
  have htoLower : s.toLower.toList = s.toList.map Char.toLower := String.toList_map
  apply String.toList_inj.1
  rw [htoLower, toHex, String.toList_ofList, hlists]

/-! ### Orders -/

/-- Texts are compared as numbers that are ordered in the same way. -/
theorem compare_text_eq {s t : String} {m n : ℕ} (hlt : s < t ↔ m < n) (heq : s = t ↔ m = n) :
    Ord.compare s t = Ord.compare m n := by
  have htexts : Ord.compare s t = compareOfLessAndEq s t := rfl
  have hnumbers : Ord.compare m n = compareOfLessAndEq m n := rfl
  simp only [htexts, hnumbers, compareOfLessAndEq, hlt, heq]

/-- Hashes are ordered as the texts that they are written as. -/
theorem compare_eq_compare_toHex (a b : Hash) : compare a b = Ord.compare a.toHex b.toHex := by
  have hranked :=
    Text.ranked_of_isWritten (fun c => mem_hexDigits (h := a))
      (fun c => mem_hexDigits (h := b))
  obtain ⟨hlt, heq⟩ := hranked.numberIn_lt_iff (by rw [length_hexDigits, length_hexDigits])
  rw [← Text.numberOfHex_eq, ← Text.numberOfHex_eq, numberOfHex_hexDigits,
    numberOfHex_hexDigits] at hlt heq
  have hlt' : a.toHex < b.toHex ↔ a.hexDigits < b.hexDigits := by
    rw [String.lt_iff_toList_lt, toHex, toHex, String.toList_ofList, String.toList_ofList]
  have heq' : a.toHex = b.toHex ↔ a.hexDigits = b.hexDigits := by
    rw [toHex, toHex, String.ofList_inj]
  rw [compare, compare_text_eq (hlt'.trans hlt) (heq'.trans heq)]

/-- The words write the number of the hash, the last one first. -/
theorem numberIn_words (h : Hash) :
    Text.numberIn (2 ^ 64) BitVec.toNat h.words.reverse = h.value.toNat := by
  have hword (i : ℕ) : (h.word i).toNat = h.value.toNat / 2 ^ (64 * i) % 2 ^ 64 := by
    rw [word, BitVec.extractLsb'_toNat, Nat.shiftRight_eq_div_pow]
  have hstep (i : ℕ) : 2 ^ 64 * (h.value.toNat / 2 ^ (64 * (i + 1))) + (h.word i).toNat =
      h.value.toNat / 2 ^ (64 * i) := by
    rw [hword, Nat.mul_succ, Nat.pow_add, ← Nat.div_div_eq_div_mul, Nat.div_add_mod]
  have hlast : 2 ^ 64 * 0 + (h.word 3).toNat = h.value.toNat / 2 ^ (64 * 3) := by
    have hnone : h.value.toNat / 2 ^ (64 * (3 + 1)) = 0 := Nat.div_eq_of_lt h.value.isLt
    rw [← hstep 3, hnone]
  have hwords : h.words.reverse = [h.word 3, h.word 2, h.word 1, h.word 0] := rfl
  rw [hwords, Text.numberIn, List.foldl_cons, List.foldl_cons, List.foldl_cons,
    List.foldl_cons, List.foldl_nil, hlast, hstep 2, hstep 1, hstep 0, Nat.mul_zero,
    Nat.pow_zero, Nat.div_one]

/-- Hashes are ordered as their words are, from the last one on. -/
theorem compare_eq_lt_iff_words (a b : Hash) :
    compare a b = .lt ↔ a.words.reverse < b.words.reverse := by
  have hranked : Text.Ranked (2 ^ 64) BitVec.toNat a.words.reverse b.words.reverse :=
    ⟨fun w _ => w.isLt, fun w _ => w.isLt, fun _ _ _ _ => BitVec.lt_def,
      fun _ _ _ _ => BitVec.toNat_inj.symm⟩
  obtain ⟨hlt, -⟩ := hranked.numberIn_lt_iff (by simp)
  rw [hlt, numberIn_words, numberIn_words, compare, Nat.compare_eq_lt]

/-! ### Bits -/

theorem ofWords_words (h : Hash) :
    ofWords (h.word 0) (h.word 1) (h.word 2) (h.word 3) = h := by
  refine congrArg Hash.mk (BitVec.eq_of_getLsbD_eq fun k hk => ?_)
  simp only [BitVec.getLsbD_append, word, BitVec.getLsbD_extractLsb']
  grind

theorem getElem?_bits (hi : i < size) : h.bits[i]? = some (h.value.getLsbD i) := by
  rw [bits, List.getElem?_map, List.getElem?_range hi]
  rfl

theorem ofBits_bits (h : Hash) : ofBits h.bits = h := by
  refine congrArg Hash.mk (BitVec.eq_of_getLsbD_eq fun k hk => ?_)
  refine (getLsbD_ofBits h.bits hk).trans ?_
  rw [List.getD_eq_getElem?_getD, getElem?_bits hk, Option.getD_some]

/-- A bit, in its word. -/
theorem getElem?_words (hi : i < size) :
    ∃ w, h.words[i / 64]? = some w ∧ w.getLsbD (i % 64) = h.value.getLsbD i := by
  have hi : i < 256 := hi
  refine ⟨h.word (i / 64), ?_, ?_⟩
  · rw [words, List.getElem?_map, List.getElem?_range (by omega)]
    rfl
  · rw [word, BitVec.getLsbD_extractLsb', decide_eq_true (Nat.mod_lt i (by decide)),
      Bool.true_and, Nat.div_add_mod]

/-- A bit, in its digit. -/
theorem getElem?_toHex (hi : i < size) :
    ∃ c n, h.toHex.toList[hexLength - 1 - i / 4]? = some c ∧
    Text.hexValue? c = some n ∧ n.testBit (i % 4) = h.value.getLsbD i := by
  have hi : i < 256 := hi
  have hplace : hexLength - 1 - (hexLength - 1 - i / 4) = i / 4 := by
    rw [hexLength]
    omega
  refine ⟨_, (h.value.extractLsb' (4 * (i / 4)) 4).toNat, ?_,
    Text.hexValue?_hexDigit _ (BitVec.isLt _), ?_⟩
  · rw [toHex, String.toList_ofList, hexDigits, List.getElem?_map,
      List.getElem?_range (by rw [hexLength]; omega), Option.map_some, hplace]
  · rw [BitVec.testBit_toNat, BitVec.getLsbD_extractLsb',
      decide_eq_true (Nat.mod_lt i (by decide)), Bool.true_and, Nat.div_add_mod]

/-- The views of hashes agree. A text is read exactly if it is made of 64 digits; otherwise its
first other character is reported, or else its length. What is read is written in lower case,
and what is written is read. Hashes are compared as their texts, as their words from the last
one on, and as the numbers that these write. A hash is made of its words and of its bits, and
each bit is found in a word and in a digit. -/
theorem views_agree (a b : Hash) (s : String) :
    ((∃ h, parse s = .ok h) ↔ s.length = hexLength ∧ ∀ c ∈ s.toList, Text.IsHexDigit c) ∧
    (∀ c, parse s = .error (.digit c) ↔ ∃ before after,
      s.toList = before ++ c :: after ∧ (∀ d ∈ before, Text.IsHexDigit d) ∧
      ¬ Text.IsHexDigit c) ∧
    (∀ n, parse s = .error (.length n) ↔
      n = s.utf8ByteSize ∧ s.length ≠ hexLength ∧ ∀ c ∈ s.toList, Text.IsHexDigit c) ∧
    parse a.toHex = .ok a ∧ (∀ h, parse s = .ok h → h.toHex = s.toLower) ∧
    compare a b = Ord.compare a.toHex b.toHex ∧
    (compare a b = .lt ↔ a.words.reverse < b.words.reverse) ∧
    compare a b = Ord.compare a.value.toNat b.value.toNat ∧
    Text.numberIn (2 ^ 64) BitVec.toNat a.words.reverse = a.value.toNat ∧
    (∃ w₀ w₁ w₂ w₃, a.words = [w₀, w₁, w₂, w₃] ∧ ofWords w₀ w₁ w₂ w₃ = a) ∧ ofBits a.bits = a ∧
    ∀ i < size, ∃ bit w c n, a.bit? i = some bit ∧ a.bits[i]? = some bit ∧
      a.words[i / 64]? = some w ∧ w.getLsbD (i % 64) = bit ∧
      a.toHex.toList[hexLength - 1 - i / 4]? = some c ∧ Text.hexValue? c = some n ∧
      n.testBit (i % 4) = bit := by
  refine ⟨exists_parse_iff,
    fun _ => parse_eq_digit_iff, fun _ => parse_eq_length_iff, parse_toHex a,
    fun _ => toHex_of_parse, compare_eq_compare_toHex a b, compare_eq_lt_iff_words a b, rfl,
    numberIn_words a, ⟨_, _, _, _, rfl, ofWords_words a⟩, ofBits_bits a, fun i hi => ?_⟩
  obtain ⟨w, hw, hbit⟩ := getElem?_words (h := a) hi
  obtain ⟨c, n, hc, hn, hbit'⟩ := getElem?_toHex (h := a) hi
  exact ⟨_, w, c, n, if_pos hi, getElem?_bits hi, hw, hbit, hc, hn, hbit'⟩

def capitalDigits : String := String.ofList (List.replicate hexLength 'A')

theorem views_agree_capitalDigits :
    ∃ h, parse capitalDigits = .ok h ∧ h.toHex = capitalDigits.toLower ∧
    ∃ w, h.words[3]? = some w ∧ some (w.getLsbD 63) = h.bit? 255 := by
  have hlength : capitalDigits.length = hexLength := by
    rw [capitalDigits, String.length_ofList, List.length_replicate]
  have hdigits : ∀ c ∈ capitalDigits.toList, Text.IsHexDigit c := by
    intro c hc
    rw [capitalDigits, String.toList_ofList] at hc
    rw [List.eq_of_mem_replicate hc]
    exact .inr (.inr (by decide))
  obtain ⟨h, hread⟩ := (views_agree ⟨0⟩ ⟨0⟩ capitalDigits).1.2 ⟨hlength, hdigits⟩
  obtain ⟨-, -, -, -, hlower, -, -, -, -, -, -, hbits⟩ := views_agree h h capitalDigits
  obtain ⟨bit, w, -, -, hbit, -, hw, hplace, -⟩ := hbits 255 (by decide)
  refine ⟨h, hread, hlower h hread, w, hw, ?_⟩
  rw [hbit, hplace]

end Hash

end VideoFingerprint
