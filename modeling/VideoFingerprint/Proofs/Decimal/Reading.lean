import Mathlib.Data.List.TakeDrop
import VideoFingerprint.Proofs.Decimal.Shortest
import VideoFingerprint.Proofs.Number.Bits

/-!
Reading the numbers that are written. The digits of a decimal, with or without a point, are
read as the same decimal, so the plain text of a finite double reads back as the double.
-/

namespace VideoFingerprint.Decimal

open Binary64 Text

/-! ### Digits -/

@[simp] theorem naturalOf_digitsOf (n : ℕ) : naturalOf (digitsOf n) = n :=
  Nat.ofDigitChars_ten_toDigits

theorem isDigit_of_mem_digitsOf {n : ℕ} {c : Char} (h : c ∈ digitsOf n) : c.isDigit = true :=
  Nat.isDigit_of_mem_toDigits (by decide) (by decide) h

theorem digitsOf_ne_nil (n : ℕ) : digitsOf n ≠ [] := Nat.toDigits_ne_nil

theorem naturalOf_replicate (k : ℕ) : naturalOf (List.replicate k '0') = 0 := by
  show Nat.ofDigitChars 10 (List.replicate k '0') 0 = 0
  rw [Nat.ofDigitChars_replicate_zero, Nat.mul_zero]

theorem naturalOf_replicate_append (k : ℕ) (ds : List Char) :
    naturalOf (List.replicate k '0' ++ ds) = naturalOf ds := by
  rw [naturalOf_append, naturalOf_replicate, zero_mul, zero_add]

theorem naturalOf_append_replicate (k : ℕ) (ds : List Char) :
    naturalOf (ds ++ List.replicate k '0') = naturalOf ds * 10 ^ k := by
  rw [naturalOf_append, naturalOf_replicate, add_zero, List.length_replicate]
  rfl

theorem splitDigits_append_of_isDigit {ds : List Char} (rest : List Char)
    (hds : ∀ c ∈ ds, c.isDigit = true) (hrest : ∀ c ∈ rest.head?, c.isDigit = false) :
    splitDigits (ds ++ rest) = (ds, rest) := by
  rw [splitDigits, List.takeWhile_append_of_pos hds, List.dropWhile_append_of_pos hds]
  cases rest with
  | nil => simp
  | cons c rest => simp [hrest c rfl]

/-! ### Unsigned numbers -/

/-- The text writes the decimal with digits and perhaps a point, and starts with a digit. -/
structure Writes (cs : List Char) (d : Decimal) : Prop where
  unsigned : unsigned? cs = some d
  head : ∃ c ∈ cs.head?, c.isDigit = true
  chars : ∀ c ∈ cs, c.isDigit = true ∨ c = '.'

theorem writes_whole {ds : List Char} (hne : ds ≠ []) (hds : ∀ c ∈ ds, c.isDigit = true) :
    Writes ds ⟨naturalOf ds, 0⟩ where
  unsigned := by
    have hsplit := splitDigits_append_of_isDigit [] hds (by simp)
    rw [List.append_nil] at hsplit
    simp [unsigned?, hsplit, hne, exponent?, naturalOfHalves_eq]
  head := ⟨ds.head hne, by simp [List.head?_eq_some_head hne], hds _ (List.head_mem hne)⟩
  chars c hc := .inl (hds c hc)

theorem writes_fraction {whole fraction : List Char} (hne : whole ≠ [])
    (hwhole : ∀ c ∈ whole, c.isDigit = true) (hfraction : ∀ c ∈ fraction, c.isDigit = true) :
    Writes (whole ++ '.' :: fraction) ⟨naturalOf (whole ++ fraction), -fraction.length⟩ where
  unsigned := by
    have hsplit := splitDigits_append_of_isDigit ('.' :: fraction) hwhole (by simp)
    have hsplit' := splitDigits_append_of_isDigit [] hfraction (by simp)
    rw [List.append_nil] at hsplit'
    simp [unsigned?, hsplit, hsplit', hne, exponent?, naturalOfHalves_eq]
  head := by
    refine ⟨whole.head hne, ?_, hwhole _ (List.head_mem hne)⟩
    simp [List.head?_append, List.head?_eq_some_head hne]
  chars c hc := by
    simp only [List.mem_append, List.mem_cons] at hc
    rcases hc with hc | rfl | hc
    · exact .inl (hwhole c hc)
    · exact .inr rfl
    · exact .inl (hfraction c hc)

theorem writes_pointed (n places : ℕ) :
    Writes (pointed (digitsOf n) places) ⟨n, -(places : ℤ)⟩ := by
  unfold pointed
  split
  · rename_i hzero
    have h := writes_whole (digitsOf_ne_nil n) fun c hc => isDigit_of_mem_digitsOf hc
    rwa [naturalOf_digitsOf, show (0 : ℤ) = -(places : ℤ) by omega] at h
  · rename_i hplaces
    extract_lets padded
    have hlength : places < padded.length := by
      simp only [padded, List.length_append, List.length_replicate]
      omega
    have hdigits : ∀ c ∈ padded, c.isDigit = true := by
      intro c hc
      rcases List.mem_append.1 hc with hc | hc
      · rw [List.eq_of_mem_replicate hc]
        rfl
      · exact isDigit_of_mem_digitsOf hc
    have hne : padded.take (padded.length - places) ≠ [] := by
      rw [Ne, ← List.length_eq_zero_iff, List.length_take]
      omega
    have h := writes_fraction hne (fun c hc => hdigits c (List.mem_of_mem_take hc))
      (fun c hc => hdigits c (List.mem_of_mem_drop hc) :
        ∀ c ∈ padded.drop (padded.length - places), _)
    rwa [List.take_append_drop, List.length_drop, naturalOf_replicate_append,
      naturalOf_digitsOf, show padded.length - (padded.length - places) = places by omega] at h

theorem writes_positional (d : Decimal) :
    ∃ d' : Decimal, Writes d.positional d' ∧ d'.num = d.num ∧ d'.den = d.den := by
  unfold positional
  extract_lets ds
  split
  · rename_i hexponent
    refine ⟨_, writes_whole (by simp [ds, digitsOf_ne_nil]) ?_, ?_, ?_⟩
    · intro c hc
      rcases List.mem_append.1 hc with hc | hc
      · exact isDigit_of_mem_digitsOf hc
      · rw [List.eq_of_mem_replicate hc]
        rfl
    · simp [num, naturalOf_append_replicate, ds]
    · simp [den, show (-d.exponent).toNat = 0 by omega]
  · rename_i hexponent
    have h := writes_pointed d.digits (-d.exponent).toNat
    rw [show -((-d.exponent).toNat : ℤ) = d.exponent by omega] at h
    exact ⟨d, h, rfl, rfl⟩

/-! ### Signed numbers -/

def signed (negative : Bool) (cs : List Char) : List Char := if negative then '-' :: cs else cs

theorem Writes.splitSign {cs : List Char} {d : Decimal} (h : Writes cs d) (negative : Bool) :
    splitSign (signed negative cs) = (negative, cs) := by
  obtain ⟨c, hc, hdigit⟩ := h.head
  obtain ⟨rest, rfl⟩ : ∃ rest, cs = c :: rest := by
    cases cs with
    | nil => simp at hc
    | cons a rest => exact ⟨rest, by simpa using hc⟩
  cases negative with
  | true => rfl
  | false =>
      show Text.splitSign (c :: rest) = _
      unfold Text.splitSign
      split
      · simp_all
      · simp_all
      · rfl

theorem toLower_of_isDigit {c : Char} (h : c.isDigit = true) : c.toLower = c := by
  simp only [Char.isDigit, Bool.and_eq_true, decide_eq_true_eq] at h
  unfold Char.toLower
  rw [dif_neg]
  rintro ⟨hge, -⟩
  exact absurd (UInt32.le_trans hge h.2) (by decide)

/-- A number that starts with a digit is none of the words. -/
theorem Writes.ne_word {cs : List Char} {d : Decimal} (h : Writes cs d) {word : String}
    {c : Char} (hword : word.toList.head? = some c) (hletter : c.isDigit = false) :
    String.ofList (cs.map Char.toLower) ≠ word := by
  rintro rfl
  obtain ⟨a, ha, hdigit⟩ := h.head
  rw [String.toList_ofList, List.head?_map, ha] at hword
  obtain rfl : a = c := by simpa [toLower_of_isDigit hdigit] using hword
  rw [hdigit] at hletter
  cases hletter

theorem Writes.parse {cs : List Char} {d : Decimal} (h : Writes cs d) (negative : Bool) :
    Literal.parse (String.ofList (signed negative cs)) = .ok ⟨negative, d.nearestPattern⟩ := by
  have hne : signed negative cs ≠ [] := by
    obtain ⟨c, hc, -⟩ := h.head
    cases negative with
    | false =>
        rintro rfl
        simp at hc
    | true => simp [signed]
  unfold Literal.parse
  rw [if_neg (by simpa using hne), String.toList_ofList, h.splitSign]
  dsimp only
  rw [if_neg (h.ne_word (c := 'n') rfl rfl), if_neg, h.unsigned]
  rintro (hinf | hinf)
  · exact h.ne_word (c := 'i') rfl rfl hinf
  · exact h.ne_word (c := 'i') rfl rfl hinf

theorem Writes.literal? {cs : List Char} {d : Decimal} (h : Writes cs d) (negative : Bool) :
    literal? (String.ofList (signed negative cs)) =
      some (ofPattern negative d.nearestPattern) := by
  rw [Decimal.literal?, parseLiteral, h.parse]
  rfl

/-! ### Doubles -/

theorem writes_plain {x : Float} (hx : x.isFinite = true) :
    ∃ cs d, plainText x = String.ofList (signed (isNegative x) cs) ∧ Writes cs d ∧
      d.nearestPattern = pattern x := by
  have hlt := isFinite_iff.1 hx
  obtain ⟨d, hwrites, hnum, hden⟩ := writes_positional (shortest .up (pattern x))
  refine ⟨_, d, ?_, hwrites, ?_⟩
  · rw [plainText, Layout.format, isNaN_eq_false hx, isInf_eq_false hx]
    rfl
  · have h : d.ReadsAs (pattern x) := by
      rw [ReadsAs, hnum, hden]
      exact shortest_readsAs hlt
    exact h.nearestPattern_eq hlt.le

end VideoFingerprint.Decimal
