import VideoFingerprint.Proofs.Decimal.Grammar
import VideoFingerprint.Proofs.Fingerprint.Lines
import VideoFingerprint.Proofs.Fingerprint.RoundTrip

/-!
The grammar of fingerprints. A line holds four fields between commas, each of them with blanks
around it: a frame number, a quality, a hash and a time. A text is a fingerprint when every
line that is not blank is a line of the grammar and the lines are in order; it has the features
of those lines and no others. What is checked line by line is all that a fingerprint asks for.
-/

namespace VideoFingerprint.Fingerprint

open Binary64 Outcome

/-! ### Fields -/

/-- Digits for a number of 64 bits, after a plus sign or without it. -/
def IsFrame (cs : List Char) (n : ℕ) : Prop :=
  ∃ ds, (cs = ds ∨ cs = '+' :: ds) ∧ ds ≠ [] ∧ Decimal.AllDigits ds ∧ Text.naturalOf ds = n ∧
    n < 2 ^ 64

def IsQuality (cs : List Char) (x : Float) : Prop := Decimal.Denotes cs x ∧ 0 ≤ x ∧ x ≤ 100

def IsHash (cs : List Char) (h : Hash) : Prop :=
  cs.length = 64 ∧ (∀ c ∈ cs, Text.IsHexDigit c) ∧ h.value.toNat = Text.numberOfHex cs

/-- A finite number that is not below zero; negative zero is none below it. -/
def IsTime (cs : List Char) (x : Float) : Prop := Decimal.Denotes cs x ∧ 0 ≤ x

theorem readFrame_eq_ok_iff {cs : List Char} {n : ℕ} :
    readFrame cs = .ok n ↔ IsFrame cs n := by
  have hmax : n ≤ Text.maxU64 ↔ n < 2 ^ 64 := by
    rw [Text.maxU64, UInt64.size]
    omega
  rw [IsFrame, ← hmax]
  refine Iff.trans ?_ Text.parseNatural_eq_ok_iff
  unfold readFrame
  split <;> rename_i h <;> simp [h]

theorem readNumber_eq_ok_iff {field : Field} {cs : List Char} {x : Float} :
    readNumber field cs = .ok x ↔
      ∃ negative d, Decimal.IsNumber cs negative d ∧
        x = ofPattern negative d.nearestPattern := by
  unfold readNumber
  split
  · rename_i hdigit
    rw [← Decimal.literal?_eq_some_iff hdigit]
    split <;> rename_i h <;> simp [h]
  · rename_i hdigit
    refine iff_of_false (by simp) ?_
    rintro ⟨negative, d, hnumber, -⟩
    exact hdigit hnumber.any_isDigit

theorem readNumber_eq_ok_iff_denotes {field : Field} {cs : List Char} {x : Float}
    (hx : x.isFinite = true) :
    readNumber field cs = .ok x ↔ Decimal.Denotes cs x := by
  rw [readNumber_eq_ok_iff, Decimal.denotes_iff, and_iff_right hx]

theorem readQuality_eq_ok_iff {cs : List Char} {x : Float} :
    readQuality cs = .ok x ↔ IsQuality cs x := by
  have hread : readQuality cs = .ok x ↔ readNumber .quality cs = .ok x ∧
      Quality.inRange x = true := by
    unfold readQuality
    split
    · rename_i h
      simp [h]
    · rename_i y h
      by_cases hrange : Quality.inRange y = true
      · rw [h, if_pos hrange, iff_self_and]
        rintro ⟨rfl⟩
        exact hrange
      · rw [h, if_neg hrange]
        refine iff_of_false (by simp) ?_
        rintro ⟨⟨rfl⟩, hx⟩
        exact hrange hx
  rw [hread, IsQuality, Quality.inRange, decide_eq_true_iff]
  refine and_congr_left fun hrange => readNumber_eq_ok_iff_denotes ?_
  exact Quality.isFinite_of_inRange (by rwa [Quality.inRange, decide_eq_true_iff])

theorem readHash_eq_ok_iff {cs : List Char} {h : Hash} :
    readHash cs = .ok h ↔ IsHash cs h := by
  refine Iff.trans ?_ Hash.parse_eq_ok_iff
  unfold readHash
  split <;> rename_i heq <;> simp [heq]

theorem readTime_eq_ok_iff {cs : List Char} {x : Float} :
    readTime cs = .ok x ↔ IsTime cs x := by
  have hread : readTime cs = .ok x ↔ readNumber .time cs = .ok x ∧ x.isFinite = true ∧
      ¬ x < 0 := by
    unfold readTime
    split
    · rename_i h
      simp [h]
    · rename_i y h
      by_cases hrange : y.isFinite = true ∧ ¬ y < 0
      · rw [h, if_neg (not_not.2 hrange.1), if_neg hrange.2, iff_self_and]
        rintro ⟨rfl⟩
        exact hrange
      · refine iff_of_false ?_ ?_
        · split
          · simp
          · split
            · simp
            · rename_i hfinite hsign
              exact absurd ⟨not_not.1 hfinite, hsign⟩ hrange
        · rw [h]
          rintro ⟨⟨rfl⟩, hx⟩
          exact hrange hx
  rw [hread, IsTime]
  constructor
  · rintro ⟨hnumber, hx, hsign⟩
    exact ⟨(readNumber_eq_ok_iff_denotes hx).1 hnumber,
      (not_lt_iff_le (isNaN_eq_false hx) (by decide)).1 hsign⟩
  · rintro ⟨hdenotes, hsign⟩
    exact ⟨(readNumber_eq_ok_iff_denotes hdenotes.1).2 hdenotes, hdenotes.1,
      (not_lt_iff_le (isNaN_eq_false hdenotes.1) (by decide)).2 hsign⟩

/-! ### Lines -/

/-- A line of four fields. The blanks around a field do not belong to its value. -/
def IsLine (line : List Char) (f : Feature) : Prop :=
  ∃ frame quality hash time : List Char,
    [','].intercalate [frame, quality, hash, time] = line ∧
      (∀ field ∈ [frame, quality, hash, time], ',' ∉ field) ∧
      IsFrame (Text.trim frame) f.frame ∧ IsQuality (Text.trim quality) f.quality ∧
      IsHash (Text.trim hash) f.hash ∧ IsTime (Text.trim time) f.time

theorem decodeLine_eq_ok_iff {line : List Char} {f : Feature} :
    decodeLine line = .ok f ↔ IsLine line f := by
  rw [decodeLine_eq_ok_iff_fields, IsLine]
  simp only [Text.splitOn_eq_iff (List.cons_ne_nil _ _), readFrame_eq_ok_iff,
    readQuality_eq_ok_iff, readHash_eq_ok_iff, readTime_eq_ok_iff, and_assoc]

/-! ### Texts -/

/-- A text of lines of the grammar, with frame numbers that rise and times that do not fall. -/
def Written (text : String) (fs : List Feature) : Prop :=
  List.Forall₂ IsLine ((Text.lines text.toList).filter fun line => Text.trim line ≠ []) fs ∧
    fs.IsChain fun f g => f.frame < g.frame ∧ f.time ≤ g.time

/-- The features of lines have finite times, which `≤` compares as it compares numbers. -/
theorem isChain_follows_iff {ls : List (List Char)} {fs : List Feature}
    (h : List.Forall₂ IsLine ls fs) :
    fs.IsChain Feature.Follows ↔
      fs.IsChain fun f g => f.frame < g.frame ∧ f.time ≤ g.time := by
  have hfinite : ∀ f ∈ fs, f.time.isNaN = false := by
    refine ((List.forall₂_and_left _ _).1 (h.flip.imp fun f l hline => ⟨?_, hline⟩)).1
    obtain ⟨frame, quality, hash, time, -, -, -, -, -, htime⟩ := hline
    exact isNaN_eq_false htime.1.1
  have horder {f g : Feature} (hf : f ∈ fs) (hg : g ∈ fs) :
      f.Follows g ↔ f.frame < g.frame ∧ f.time ≤ g.time :=
    and_congr_right fun _ => not_lt_iff_le (hfinite g hg) (hfinite f hf)
  exact ⟨fun hchain => hchain.imp_of_mem_imp fun f g hf hg => (horder hf hg).1,
    fun hchain => hchain.imp_of_mem_imp fun f g hf hg => (horder hf hg).2⟩

theorem readLines_eq_ok_iff_written {text : String} {fs : List Feature} :
    readLines none 1 (Text.lines text.toList) = .ok fs ↔ Written text fs := by
  have hinked (l : List Char) : IsInked l = decide (Text.trim l ≠ []) := by
    cases hl : l.all Text.isBlank <;> simp [IsInked, Text.trim_eq_nil_iff, hl]
  have hfilter (ls : List (List Char)) :
      ls.filter IsInked = ls.filter fun l => Text.trim l ≠ [] :=
    List.filter_congr fun l _ => hinked l
  rw [readLines_eq_ok_iff, Written, hfilter]
  simp only [decodeLine_eq_ok_iff]
  exact and_congr_right fun hlines => isChain_follows_iff hlines

/-- A text is read when it is written in the grammar, and then with one feature for each of its
lines that is not blank; otherwise there is an error. Features that passed the checks of their
lines are always a fingerprint. -/
theorem decode_grammar :
    (∀ (text : String) (fs : List Feature), (∃ p, decode text = .ok p ∧ p.features = fs) ↔
      Written text fs) ∧
    (∀ text : String, (∃ e, decode text = .error e) ↔ ¬ ∃ fs, Written text fs) ∧
    ∀ (text : String) (fs : List Feature), readLines none 1 (Text.lines text.toList) = .ok fs →
      ∃ p, ofFeatures fs (typicalInterval fs) (lastTime fs) = .ok p ∧ decode text = .ok p := by
  have hread (text : String) (fs : List Feature) :
      (∃ p, decode text = .ok p ∧ p.features = fs) ↔ Written text fs := by
    rw [exists_decode_iff, ← readLines_lines, readLines_eq_ok_iff_written]
  refine ⟨hread, fun text => ?_, fun text fs h => ?_⟩
  · rw [not_exists]
    constructor
    · rintro ⟨e, he⟩ fs hfs
      obtain ⟨p, hp, -⟩ := (hread text fs).2 hfs
      cases he.symm.trans hp
    · intro h
      cases hdecode : decode text with
      | error e => exact ⟨e, rfl⟩
      | ok p => exact absurd ((hread text p.features).1 ⟨p, hdecode, rfl⟩) (h p.features)
  · exact ⟨⟨fs, _, _, valid_of_readLines h⟩, ofFeatures_eq_ok_iff.2 ⟨rfl, rfl, rfl⟩,
      decode_eq_ok_iff.2 ⟨h, rfl, rfl⟩⟩

def overlongTime : String :=
  "0,50,0123456789abcdef0123456789abcdef0123456789abcdef0123456789abcdef,1e309"

theorem decode_grammar_untidyText :
    (∃ fs, Written untidyText fs ∧ fs.length = 1) ∧ ¬ ∃ fs, Written overlongTime fs := by
  obtain ⟨hread, hfault, -⟩ := decode_grammar
  have hok : (decode untidyText).toOption.map size = some 1 := by decide +kernel
  have herror : (decode overlongTime).isOk = false := by decide +kernel
  constructor
  · obtain ⟨p, hp, hsize⟩ := Option.map_eq_some_iff.1 hok
    exact ⟨p.features, (hread _ _).1 ⟨p, toOption_eq_some_iff.1 hp, rfl⟩, hsize⟩
  · rw [← hfault]
    cases h : decode overlongTime with
    | error e => exact ⟨e, rfl⟩
    | ok p =>
        rw [h] at herror
        cases herror

end VideoFingerprint.Fingerprint
