import VideoFingerprint.Proofs.Decimal.Reading

/-!
The grammar of numbers. A number is an optional sign, digits with at most one point among or
around them, and an optional exponent of ten. Besides the numbers a reader knows a few words,
none of which has a digit; so among the texts with a digit it reads exactly the numbers, and it
reads each of them as the double nearest to it.
-/

namespace VideoFingerprint.Decimal

open Binary64 Text

/-! ### The grammar -/

def AllDigits (ds : List Char) : Prop := ∀ c ∈ ds, c.isDigit = true

instance (ds : List Char) : Decidable (AllDigits ds) :=
  inferInstanceAs (Decidable (∀ c ∈ ds, c.isDigit = true))

/-- A sign, which may be left out; a number is negative with a minus sign only. -/
inductive IsSign : List Char → Bool → Prop
  | none : IsSign [] false
  | plus : IsSign ['+'] false
  | minus : IsSign ['-'] true

/-- Digits with at most one point. At least one digit stands before the point or after it. -/
inductive IsMantissa : List Char → Decimal → Prop
  | whole {ds : List Char} : ds ≠ [] → AllDigits ds → IsMantissa ds ⟨naturalOf ds, 0⟩
  | pointed {ds es : List Char} : ds ≠ [] ∨ es ≠ [] → AllDigits ds → AllDigits es →
      IsMantissa (ds ++ '.' :: es) ⟨naturalOf (ds ++ es), -es.length⟩

/-- An exponent of ten, which may be left out. Its size is the number that its digits write, as
long as that is below 655360. -/
inductive IsExponent : List Char → ℤ → Prop
  | none : IsExponent [] 0
  | marked {mark : Char} {sign ds : List Char} {negative : Bool} : mark = 'e' ∨ mark = 'E' →
    IsSign sign negative →
      ds ≠ [] → AllDigits ds →
      IsExponent (mark :: (sign ++ ds))
        (if negative then -(exponentSize ds : ℤ) else exponentSize ds)

inductive IsNumber : List Char → Bool → Decimal → Prop
  | mk {sign mantissa exponent : List Char} {negative : Bool} {d : Decimal} {e : ℤ} :
  IsSign sign negative →
      IsMantissa mantissa d → IsExponent exponent e →
      IsNumber (sign ++ (mantissa ++ exponent)) negative ⟨d.digits, e + d.exponent⟩

/-! ### Signs -/

theorem splitSign_spec (cs : List Char) :
    ∃ sign negative rest, splitSign cs = (negative, rest) ∧ IsSign sign negative ∧
      cs = sign ++ rest := by
  unfold splitSign
  split
  · exact ⟨['-'], true, _, rfl, .minus, rfl⟩
  · exact ⟨['+'], false, _, rfl, .plus, rfl⟩
  · exact ⟨[], false, _, rfl, .none, rfl⟩

theorem IsSign.splitSign_append {sign : List Char} {negative : Bool} (h : IsSign sign negative)
    {cs : List Char} (hcs : ∀ c ∈ cs.head?, c ≠ '-' ∧ c ≠ '+') :
    splitSign (sign ++ cs) = (negative, cs) := by
  cases h with
  | none =>
      rw [List.nil_append]
      unfold splitSign
      split
      · exact absurd rfl (hcs '-' rfl).1
      · exact absurd rfl (hcs '+' rfl).2
      · rfl
  | plus => rfl
  | minus => rfl

theorem AllDigits.head?_ne_sign {ds : List Char} (h : AllDigits ds) :
    ∀ c ∈ ds.head?, c ≠ '-' ∧ c ≠ '+' := by
  intro c hc
  have hdigit := h c (List.mem_of_head? hc)
  constructor <;> rintro rfl <;> cases hdigit

/-! ### Exponents -/

theorem exponent?_cons {mark : Char} {cs ds : List Char} {negative : Bool}
    (h : splitSign cs = (negative, ds)) :
    exponent? (mark :: cs) =
      if (mark = 'e' ∨ mark = 'E') ∧ ds ≠ [] ∧ AllDigits ds then
        some (if negative then -(exponentSize ds : ℤ) else exponentSize ds)
      else none := by
  rw [exponent?, h]
  by_cases hmark : mark = 'e' ∨ mark = 'E'
  · by_cases hdigits : ds ≠ [] ∧ AllDigits ds
    · rw [if_pos hmark, if_pos ⟨hmark, hdigits⟩]
      exact if_neg (by simpa [AllDigits] using hdigits)
    · rw [if_pos hmark, if_neg fun hall => hdigits hall.2]
      refine if_pos ?_
      rw [List.isEmpty_iff, List.all_eq_true]
      exact (not_and_or.1 hdigits).imp_left not_not.1
  · rw [if_neg hmark, if_neg fun hall => hmark hall.1]

theorem exponent?_eq_some_iff {cs : List Char} {e : ℤ} :
    exponent? cs = some e ↔ IsExponent cs e := by
  constructor
  · intro h
    cases cs with
    | nil =>
        cases h
        exact .none
    | cons mark cs =>
        obtain ⟨sign, negative, ds, hsplit, hsign, rfl⟩ := splitSign_spec cs
        rw [exponent?_cons hsplit] at h
        split at h
        · rename_i hmarked
          obtain ⟨hmark, hne, hdigits⟩ := hmarked
          cases h
          exact .marked hmark hsign hne hdigits
        · cases h
  · intro h
    cases h with
    | none => rfl
    | marked hmark hsign hne hdigits =>
        rw [exponent?_cons (hsign.splitSign_append hdigits.head?_ne_sign),
          if_pos ⟨hmark, hne, hdigits⟩]

/-- An exponent goes on neither with a digit nor with a point. -/
theorem IsExponent.head? {cs : List Char} {e : ℤ} (h : IsExponent cs e) :
    ∀ c ∈ cs.head?, c.isDigit = false ∧ c ≠ '.' := by
  cases h with
  | none => simp
  | marked hmark =>
      rintro c ⟨rfl⟩
      rcases hmark with rfl | rfl <;> decide

/-! ### Digits with a point -/

theorem splitDigits_spec (cs : List Char) :
    ∃ ds rest, splitDigits cs = (ds, rest) ∧ AllDigits ds ∧ cs = ds ++ rest :=
  ⟨(splitDigits cs).1, (splitDigits cs).2, rfl,
    fun _ => isDigit_of_mem_splitDigits, (splitDigits_append cs).symm⟩

theorem unsigned?_of_point {cs whole rest fraction tail : List Char}
    (h : splitDigits cs = (whole, '.' :: rest)) (h' : splitDigits rest = (fraction, tail)) :
    unsigned? cs = if whole = [] ∧ fraction = [] then none
      else (exponent? tail).map fun e =>
        ⟨naturalOf (whole ++ fraction), e - fraction.length⟩ := by
  simp [unsigned?, h, h', naturalOfHalves_eq]

theorem unsigned?_of_no_point {cs whole rest : List Char} (h : splitDigits cs = (whole, rest))
    (hrest : ∀ tail, rest ≠ '.' :: tail) :
    unsigned? cs = if whole = [] then none
      else (exponent? rest).map fun e => ⟨naturalOf whole, e⟩ := by
  simp [unsigned?, h, naturalOfHalves_eq]

theorem unsigned?_eq_some_iff {cs : List Char} {d : Decimal} :
    unsigned? cs = some d ↔ ∃ mantissa m exponent e, IsMantissa mantissa m ∧
      IsExponent exponent e ∧
      cs = mantissa ++ exponent ∧ d = ⟨m.digits, e + m.exponent⟩ := by
  constructor
  · intro h
    obtain ⟨whole, rest, hsplit, hwhole, rfl⟩ := splitDigits_spec cs
    by_cases hpoint : ∃ rest', rest = '.' :: rest'
    · obtain ⟨rest', rfl⟩ := hpoint
      obtain ⟨fraction, tail, hsplit', hfraction, rfl⟩ := splitDigits_spec rest'
      rw [unsigned?_of_point hsplit hsplit'] at h
      split at h
      · cases h
      · rename_i hne
        obtain ⟨e, he, rfl⟩ := Option.map_eq_some_iff.1 h
        exact ⟨whole ++ '.' :: fraction, _, tail, e,
          .pointed (not_and_or.1 hne) hwhole hfraction,
          exponent?_eq_some_iff.1 he, by simp, rfl⟩
    · rw [unsigned?_of_no_point hsplit fun tail htail => hpoint ⟨tail, htail⟩] at h
      split at h
      · cases h
      · rename_i hne
        obtain ⟨e, he, rfl⟩ := Option.map_eq_some_iff.1 h
        exact ⟨whole, _, rest, e, .whole hne hwhole, exponent?_eq_some_iff.1 he, rfl, by simp⟩
  · rintro ⟨mantissa, m, exponent, e, hmantissa, hexponent, rfl, rfl⟩
    have hdigit : ∀ c ∈ exponent.head?, c.isDigit = false :=
      fun c hc => (hexponent.head? c hc).1
    cases hmantissa with
    | whole hne hds =>
        have hpoint : ∀ tail, exponent ≠ '.' :: tail := by
          rintro tail rfl
          exact (hexponent.head? '.' rfl).2 rfl
        rw [unsigned?_of_no_point (splitDigits_append_of_isDigit exponent hds hdigit) hpoint,
          if_neg hne, exponent?_eq_some_iff.2 hexponent]
        simp
    | @pointed ds es hne hds hes =>
        have hsplit := splitDigits_append_of_isDigit ('.' :: (es ++ exponent)) hds (by simp)
        rw [List.append_assoc, List.cons_append,
          unsigned?_of_point hsplit (splitDigits_append_of_isDigit exponent hes hdigit),
          if_neg (not_and_or.2 hne), exponent?_eq_some_iff.2 hexponent]
        rfl

/-! ### Numbers with a sign -/

theorem IsMantissa.exists_isDigit {cs : List Char} {d : Decimal} (h : IsMantissa cs d) :
    ∃ c ∈ cs, c.isDigit = true := by
  cases h with
  | whole hne hds =>
      obtain ⟨c, hc⟩ := List.exists_mem_of_ne_nil _ hne
      exact ⟨c, hc, hds c hc⟩
  | @pointed ds es hne hds hes =>
      rcases hne with hne | hne
      · obtain ⟨c, hc⟩ := List.exists_mem_of_ne_nil ds hne
        exact ⟨c, List.mem_append_left _ hc, hds c hc⟩
      · obtain ⟨c, hc⟩ := List.exists_mem_of_ne_nil es hne
        exact ⟨c, List.mem_append_right _ (List.mem_cons_of_mem _ hc), hes c hc⟩

theorem IsMantissa.head?_ne_sign {cs : List Char} {d : Decimal} (h : IsMantissa cs d)
    (rest : List Char) :
    ∀ c ∈ (cs ++ rest).head?, c ≠ '-' ∧ c ≠ '+' := by
  cases h with
  | whole hne hds =>
      rw [List.head?_append_of_ne_nil _ hne]
      exact AllDigits.head?_ne_sign hds
  | @pointed ds es hne hds hes =>
      cases ds with
      | nil =>
          rintro c ⟨rfl⟩
          decide
      | cons c ds =>
          rintro c ⟨rfl⟩
          exact hds.head?_ne_sign _ rfl

/-- A number has a digit. -/
theorem IsNumber.any_isDigit {cs : List Char} {negative : Bool} {d : Decimal}
    (h : IsNumber cs negative d) :
    cs.any Char.isDigit = true := by
  cases h with
  | mk hsign hmantissa hexponent =>
      obtain ⟨c, hc, hdigit⟩ := hmantissa.exists_isDigit
      exact List.any_eq_true.2 ⟨c, List.mem_append_right _ (List.mem_append_left _ hc), hdigit⟩

theorem IsSign.notMem_of_isDigit {sign : List Char} {negative : Bool}
    (h : IsSign sign negative) {c : Char} (hc : c.isDigit = true) : c ∉ sign := by
  cases h with
  | none => exact List.not_mem_nil
  | plus | minus =>
      rw [List.mem_singleton]
      rintro rfl
      cases hc

/-- A text with a digit is none of the words. -/
theorem ne_word {cs : List Char} {c : Char} (hc : c ∈ cs) (hdigit : c.isDigit = true)
    {word : String} (hword : word.toList.all (fun c => !c.isDigit) = true) :
    String.ofList (cs.map Char.toLower) ≠ word := by
  rintro rfl
  rw [String.toList_ofList, List.all_map, List.all_eq_true] at hword
  have hletter := hword c hc
  rw [Function.comp_apply, toLower_of_isDigit hdigit, hdigit] at hletter
  cases hletter

theorem isNumber_iff {cs rest : List Char} {negative sign : Bool}
    (h : splitSign cs = (sign, rest)) {d : Decimal} :
    IsNumber cs negative d ↔ sign = negative ∧ unsigned? rest = some d := by
  constructor
  · rintro ⟨hsign, hmantissa, hexponent⟩
    rw [hsign.splitSign_append (hmantissa.head?_ne_sign _), Prod.mk.injEq] at h
    obtain ⟨rfl, rfl⟩ := h
    exact ⟨rfl, unsigned?_eq_some_iff.2 ⟨_, _, _, _, hmantissa, hexponent, rfl, rfl⟩⟩
  · rintro ⟨rfl, hd⟩
    obtain ⟨mantissa, m, exponent, e, hmantissa, hexponent, rfl, rfl⟩ :=
      unsigned?_eq_some_iff.1 hd
    obtain ⟨front, negative, rest, hsplit, hsign, rfl⟩ := splitSign_spec cs
    obtain ⟨rfl, rfl⟩ := Prod.mk.inj (hsplit.symm.trans h)
    exact .mk hsign hmantissa hexponent

/-! ### Reading numbers -/

theorem literal?_eq_some_iff {cs : List Char} (h : cs.any Char.isDigit = true) {x : Float} :
    literal? (String.ofList cs) = some x ↔
      ∃ negative d, IsNumber cs negative d ∧ x = ofPattern negative d.nearestPattern := by
  obtain ⟨c, hc, hdigit⟩ := List.any_eq_true.1 h
  obtain ⟨sign, negative, rest, hsplit, hsign, hcs⟩ := splitSign_spec cs
  have hrest : c ∈ rest :=
    (List.mem_append.1 (hcs ▸ hc)).resolve_left (hsign.notMem_of_isDigit hdigit)
  have hne : cs ≠ [] := List.ne_nil_of_mem hc
  simp only [isNumber_iff hsplit]
  rw [literal?, parseLiteral, Literal.parse, if_neg (by simpa using hne), String.toList_ofList,
    hsplit]
  dsimp only
  rw [if_neg (ne_word hrest hdigit rfl),
    if_neg (not_or.2 ⟨ne_word hrest hdigit rfl, ne_word hrest hdigit rfl⟩)]
  cases unsigned? rest with
  | none => simp [Except.map, Except.toOption]
  | some d => simp [Except.map, Except.toOption, Literal.toFloat, eq_comm]

/-! ### The nearest double -/

/-- The text writes a number, and the double is finite and the nearest one to it. -/
def Denotes (cs : List Char) (x : Float) : Prop :=
  x.isFinite = true ∧ ∃ d, IsNumber cs (isNegative x) d ∧ d.ReadsAs (pattern x)

theorem readsAs_nearestPattern {d : Decimal} (h : d.nearestPattern < infinityPattern) :
    d.ReadsAs d.nearestPattern := by
  rw [nearestPattern_eq_nearest, nearestPattern_eq_min] at h ⊢
  rw [min_eq_right (by omega)]
  exact rounds_unboundedPattern d.den_pos

theorem denotes_iff {cs : List Char} {x : Float} :
    Denotes cs x ↔ x.isFinite = true ∧
      ∃ negative d, IsNumber cs negative d ∧ x = ofPattern negative d.nearestPattern := by
  refine and_congr_right fun hx => ?_
  constructor
  · rintro ⟨d, hnumber, hreads⟩
    refine ⟨isNegative x, d, hnumber, ?_⟩
    rw [hreads.nearestPattern_eq (isFinite_iff.1 hx).le, ofPattern_pattern]
  · rintro ⟨negative, d, hnumber, rfl⟩
    have hle : d.nearestPattern ≤ infinityPattern := by
      rw [nearestPattern_eq_nearest]
      exact min_le_left _ _
    rw [isFinite_iff, pattern_ofPattern hle] at hx
    refine ⟨d, ?_, ?_⟩
    · rwa [isNegative_ofPattern hle]
    · rw [pattern_ofPattern hle]
      exact readsAs_nearestPattern hx

end VideoFingerprint.Decimal
