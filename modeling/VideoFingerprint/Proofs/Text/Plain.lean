import VideoFingerprint.Proofs.Text.Splitting
import VideoFingerprint.Text.Integer

/-!
Texts of plain characters, which are neither blank nor a comma. Lines and fields made of them
are found again when the text is taken apart, and trimming leaves them as they are. Whole
numbers in range read back.
-/

namespace VideoFingerprint.Text

def IsPlain (c : Char) : Prop := isBlank c = false ∧ c ≠ ','

variable {cs : List Char}

theorem isPlain_of_isDigit {c : Char} (h : c.isDigit = true) : IsPlain c := by
  simp only [Char.isDigit, Bool.and_eq_true, decide_eq_true_eq, ge_iff_le,
    UInt32.le_iff_toNat_le] at h
  have hlow : 48 ≤ c.toNat := h.1
  have hhigh : c.toNat ≤ 57 := h.2
  constructor
  · simp only [isBlank, decide_eq_false_iff_not]
    omega
  · rintro rfl
    exact absurd hlow (by decide)

theorem comma_notMem (h : ∀ c ∈ cs, IsPlain c) : ',' ∉ cs := fun hc => (h _ hc).2 rfl

theorem dropWhile_isBlank (h : ∀ c ∈ cs, IsPlain c) : cs.dropWhile isBlank = cs := by
  cases cs with
  | nil => rfl
  | cons c cs =>
      rw [List.dropWhile_cons, (h c List.mem_cons_self).1]
      rfl

theorem trim_eq_self (h : ∀ c ∈ cs, IsPlain c) : trim cs = cs := by
  rw [trim, dropWhile_isBlank h,
    dropWhile_isBlank fun c hc => h c (List.mem_reverse.1 hc), List.reverse_reverse]

/-- Fields joined with commas are found again. -/
theorem trim_splitOn_intercalate {fields : List (List Char)} (hne : fields ≠ [])
    (h : ∀ cs ∈ fields, ∀ c ∈ cs, IsPlain c) :
    (([','].intercalate fields).splitOn ',').map trim = fields := by
  rw [List.splitOn_intercalate ',' (fun cs hcs => comma_notMem (h cs hcs)) hne]
  conv => rhs; rw [← List.map_id fields]
  exact List.map_congr_left fun cs hcs => trim_eq_self (h cs hcs)

theorem isPlain_or_comma {fields : List (List Char)} (h : ∀ cs ∈ fields, ∀ c ∈ cs, IsPlain c)
    {c : Char} (hc : c ∈ [','].intercalate fields) : IsPlain c ∨ c = ',' := by
  induction fields with
  | nil => simp at hc
  | cons cs fields ih =>
      cases fields with
      | nil =>
          rw [List.intercalate_singleton] at hc
          exact .inl (h cs List.mem_cons_self c hc)
      | cons ds fields =>
          rw [List.intercalate_cons_cons, List.append_assoc] at hc
          rcases List.mem_append.1 hc with hc | hc
          · exact .inl (h cs List.mem_cons_self c hc)
          · rcases List.mem_cons.1 hc with rfl | hc
            · exact .inr rfl
            · exact ih (fun ks hks => h ks (List.mem_cons_of_mem cs hks)) hc

/-! ### Lines -/

/-- Lines that each end with a line feed are found again, if they hold neither of the
characters that end a line. -/
theorem lines_endedLines {ls : List (List Char)} (hfeed : ∀ l ∈ ls, '\n' ∉ l)
    (hreturn : ∀ l ∈ ls, '\r' ∉ l) : lines (ls.flatMap fun l => l ++ ['\n']) = ls := by
  have hkept : (ls.map fun l => if l.getLast? = some '\r' then l.dropLast else l) = ls := by
    conv => rhs; rw [← List.map_id ls]
    refine List.map_congr_left fun l hl => if_neg fun hlast => hreturn l hl ?_
    exact List.mem_of_getLast? hlast
  have hsplit := splitOn_flatMap_append hfeed []
  rw [List.append_nil, List.splitOn_nil] at hsplit
  rw [lines, hsplit]
  simp only [List.dropLast_concat, List.getLast?_concat, hkept]

/-! ### Whole numbers -/

theorem readDigits_eq_ok {limit : Nat} (hcs : ∀ c ∈ cs, c.isDigit = true) {n : Nat}
    (hlimit : n * Nat.pow 10 cs.length + naturalOf cs ≤ limit) :
    readDigits limit n cs = .ok (n * Nat.pow 10 cs.length + naturalOf cs) := by
  rw [← foldl_digits] at hlimit ⊢
  induction cs generalizing n with
  | nil => rfl
  | cons c cs ih =>
      have hnext : 10 * n + digitValue c ≤ limit := by
        rw [List.foldl_cons, foldl_digits] at hlimit
        have : 0 < Nat.pow 10 cs.length := Nat.pow_pos (by decide)
        have := Nat.le_mul_of_pos_right (10 * n + digitValue c) this
        omega
      rw [readDigits, if_neg (by simp [hcs c List.mem_cons_self]), if_neg (by omega)]
      exact ih (fun d hd => hcs d (List.mem_cons_of_mem c hd)) hlimit

theorem le_of_readDigits {limit n m : Nat} (hn : n ≤ limit)
    (h : readDigits limit n cs = .ok m) : m ≤ limit := by
  induction cs generalizing n with
  | nil =>
      cases h
      exact hn
  | cons c cs ih =>
      unfold readDigits at h
      split at h
      · cases h
      · split at h
        · cases h
        · exact ih (by omega) h

theorem of_readDigits {limit n m : Nat} (h : readDigits limit n cs = .ok m) :
    (∀ c ∈ cs, c.isDigit = true) ∧ m = n * Nat.pow 10 cs.length + naturalOf cs := by
  rw [← foldl_digits]
  induction cs generalizing n with
  | nil =>
      cases h
      exact ⟨by simp, rfl⟩
  | cons c cs ih =>
      unfold readDigits at h
      split at h
      · cases h
      · rename_i hdigit
        split at h
        · cases h
        · obtain ⟨hcs, hm⟩ := ih h
          exact ⟨List.forall_mem_cons.2 ⟨by simpa using hdigit, hcs⟩, hm⟩

theorem readDigits_zero_eq_ok_iff {limit n : Nat} :
    readDigits limit 0 cs = .ok n ↔ (∀ c ∈ cs, c.isDigit = true) ∧ naturalOf cs = n ∧
      n ≤ limit := by
  constructor
  · intro h
    obtain ⟨hdigits, hn⟩ := of_readDigits h
    rw [Nat.zero_mul, Nat.zero_add] at hn
    exact ⟨hdigits, hn.symm, le_of_readDigits (Nat.zero_le _) h⟩
  · rintro ⟨hdigits, rfl, hlimit⟩
    rw [readDigits_eq_ok hdigits] <;> rw [Nat.zero_mul, Nat.zero_add]
    exact hlimit

/-- A whole number is read from its digits, of which there is at least one, after a plus sign
or without it. -/
theorem parseNatural_eq_ok_iff {limit n : Nat} :
    parseNatural limit (String.ofList cs) = .ok n ↔
      ∃ ds, (cs = ds ∨ cs = '+' :: ds) ∧ ds ≠ [] ∧ (∀ c ∈ ds, c.isDigit = true) ∧
        naturalOf ds = n ∧ n ≤ limit := by
  have hplus (ds : List Char) : ¬ ∀ c ∈ '+' :: ds, c.isDigit = true := fun h =>
    absurd (h '+' List.mem_cons_self) (by decide)
  unfold parseNatural
  rw [String.toList_ofList]
  split
  · refine iff_of_false (by simp) ?_
    rintro ⟨ds, rfl | hcons, hne, -⟩
    · exact hne rfl
    · cases hcons
  · rename_i c cs
    rw [readDigits_zero_eq_ok_iff]
    constructor
    · rintro ⟨hdigits, hn⟩
      exact ⟨c :: cs, .inr rfl, List.cons_ne_nil c cs, hdigits, hn⟩
    · rintro ⟨ds, rfl | hcons, -, hdigits, hn⟩
      · exact absurd hdigits (hplus _)
      · cases hcons
        exact ⟨hdigits, hn⟩
  · rename_i hempty hsign
    rw [readDigits_zero_eq_ok_iff]
    constructor
    · rintro ⟨hdigits, hn⟩
      exact ⟨cs, .inl rfl, hempty, hdigits, hn⟩
    · rintro ⟨ds, rfl | rfl, hne, hdigits, hn⟩
      · exact ⟨hdigits, hn⟩
      · obtain ⟨c, ds, rfl⟩ := List.exists_cons_of_ne_nil hne
        exact (hsign c ds rfl).elim

theorem le_of_parseNatural {limit n : Nat} {text : String}
    (h : parseNatural limit text = .ok n) : n ≤ limit := by
  unfold parseNatural at h
  split at h
  · cases h
  · exact le_of_readDigits (Nat.zero_le _) h
  · exact le_of_readDigits (Nat.zero_le _) h

theorem parseNatural_ofList {limit : Nat} (hne : cs ≠ []) (hcs : ∀ c ∈ cs, c.isDigit = true)
    (hlimit : naturalOf cs ≤ limit) :
    parseNatural limit (String.ofList cs) = .ok (naturalOf cs) := by
  have hread : readDigits limit 0 cs = .ok (naturalOf cs) := by
    rw [readDigits_eq_ok hcs] <;> rw [Nat.zero_mul, Nat.zero_add]
    exact hlimit
  unfold parseNatural
  rw [String.toList_ofList]
  split
  · contradiction
  · rename_i c rest
    have := hcs '+' List.mem_cons_self
    contradiction
  · exact hread

end VideoFingerprint.Text
