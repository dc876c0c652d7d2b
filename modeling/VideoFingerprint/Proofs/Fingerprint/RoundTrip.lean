import Mathlib.Data.List.Forall2
import VideoFingerprint.Proofs.Decimal.Fixed
import VideoFingerprint.Proofs.Fingerprint.Lines
import VideoFingerprint.Proofs.Hash.Hex
import VideoFingerprint.Proofs.Text.Plain

/-!
Writing and reading fingerprints. A written line is read as the feature it was written from,
with the time that its decimals denote; such times keep their order, so the lines together are
a fingerprint again, and it is written with the same text.
-/

namespace VideoFingerprint

open Binary64

/-! ### Numbers of features -/

theorem Quality.isFinite_of_inRange {x : Float} (h : Quality.inRange x = true) :
    x.isFinite = true := by
  rw [Quality.inRange, decide_eq_true_iff] at h
  obtain ⟨hlow, hhigh⟩ := h
  obtain ⟨-, hx⟩ := not_isNaN_of_le hlow
  rw [le_iff (by decide) hx, show signedPattern 0 = 0 by decide] at hlow
  rw [le_iff hx (by decide)] at hhigh
  have hbound : signedPattern 100 < infinityPattern := by decide
  rw [isFinite_iff]
  unfold signedPattern at hlow hhigh
  split at hlow
  · have : 0 < infinityPattern := by decide
    omega
  · rw [if_neg (by assumption)] at hhigh
    have : (pattern x : ℤ) < infinityPattern := hhigh.trans_lt hbound
    omega

namespace Feature

theorem timeInRange_iff {x : Float} :
    timeInRange x = true ↔ x.isFinite = true ∧ (isNegative x = true → pattern x = 0) := by
  rw [timeInRange, decide_eq_true_iff]
  refine and_congr_right fun hx => ?_
  rw [lt_iff (isNaN_eq_false hx) (by decide), show signedPattern 0 = 0 by decide,
    signedPattern]
  split <;> simp_all

theorem signedPattern_eq {x : Float} (h : timeInRange x = true) :
    signedPattern x = pattern x := by
  obtain ⟨-, hsign⟩ := timeInRange_iff.1 h
  rw [signedPattern]
  split
  · rename_i hneg
    rw [hsign hneg]
    rfl
  · rfl

/-- Negative zero is no exception: times in range are ordered as their patterns are. -/
theorem not_lt_iff {x y : Float} (hx : timeInRange x = true) (hy : timeInRange y = true) :
    ¬ y < x ↔ pattern x ≤ pattern y := by
  rw [lt_iff (isNaN_eq_false (timeInRange_iff.1 hy).1)
    (isNaN_eq_false (timeInRange_iff.1 hx).1), signedPattern_eq hx, signedPattern_eq hy]
  omega

def settled (f : Feature) : Feature :=
  { f with time := Decimal.settled Fingerprint.timeDecimals f.time }

theorem timeInRange_settled {f : Feature} (h : timeInRange f.time = true) :
    timeInRange f.settled.time = true := by
  rw [timeInRange_iff] at h ⊢
  refine ⟨Decimal.isFinite_settled _ h.1,
    fun hneg => Decimal.pattern_settled_eq_zero _ (h.2 ?_)⟩
  rw [← (Decimal.readsAs_settled Fingerprint.timeDecimals h.1).2.2]
  exact hneg

theorem Follows.settled {f g : Feature} (hf : timeInRange f.time = true)
    (hg : timeInRange g.time = true) (h : Follows f g) : Follows f.settled g.settled := by
  refine ⟨h.1, (not_lt_iff (timeInRange_settled hf) (timeInRange_settled hg)).2 ?_⟩
  exact Decimal.pattern_settled_mono _ (timeInRange_iff.1 hf).1 (timeInRange_iff.1 hg).1
    ((not_lt_iff hf hg).1 h.2)

end Feature

/-! ### Plain fields -/

namespace Text

theorem isPlain_hexDigit : ∀ n < 16, IsPlain (hexDigit n) := by
  unfold IsPlain
  decide

end Text

theorem Hash.isPlain_of_mem_hexDigits {h : Hash} {c : Char} (hc : c ∈ h.hexDigits) :
    Text.IsPlain c := by
  obtain ⟨n, hn, rfl⟩ := Hash.mem_hexDigits hc
  exact Text.isPlain_hexDigit n hn

theorem Decimal.Writes.isPlain {cs : List Char} {d : Decimal} (h : Decimal.Writes cs d)
    {negative : Bool} {c : Char} (hc : c ∈ Decimal.signed negative cs) : Text.IsPlain c := by
  have hchar : c = '-' ∨ c ∈ cs := by
    cases negative with
    | false => exact .inr hc
    | true => exact List.mem_cons.1 hc
  rcases hchar with rfl | hc
  · exact ⟨rfl, by decide⟩
  · rcases h.chars c hc with hdigit | rfl
    · exact Text.isPlain_of_isDigit hdigit
    · exact ⟨rfl, by decide⟩

theorem Decimal.Writes.any_isDigit {cs : List Char} {d : Decimal} (h : Decimal.Writes cs d)
    (negative : Bool) :
    (Decimal.signed negative cs).any Char.isDigit = true := by
  obtain ⟨c, hc, hdigit⟩ := h.head
  have hmem : c ∈ cs := List.mem_of_head? hc
  rw [List.any_eq_true]
  refine ⟨c, ?_, hdigit⟩
  cases negative with
  | false => exact hmem
  | true => exact List.mem_cons_of_mem _ hmem

namespace Fingerprint

/-! ### Reading a written line -/

theorem readFrame_digitsOf {n : ℕ} (hn : n ≤ Text.maxU64) :
    readFrame (Decimal.digitsOf n) = .ok n := by
  have hvalue := Decimal.naturalOf_digitsOf n
  have hparse : Text.parseNatural Text.maxU64 (String.ofList (Decimal.digitsOf n)) = .ok _ :=
    Text.parseNatural_ofList (Decimal.digitsOf_ne_nil n)
      (fun c hc => Decimal.isDigit_of_mem_digitsOf hc)
      (by rwa [hvalue])
  rw [readFrame, hparse, hvalue]

theorem readNumber_signed {field : Field} {cs : List Char} {d : Decimal}
    (h : Decimal.Writes cs d) (negative : Bool) :
    readNumber field (Decimal.signed negative cs) =
      .ok (ofPattern negative d.nearestPattern) := by
  rw [readNumber, if_pos (h.any_isDigit negative), h.literal?]

theorem readHash_hexDigits (h : Hash) : readHash h.hexDigits = .ok h := by
  have hparse : Hash.parse (String.ofList h.hexDigits) = .ok h := h.parse_toHex
  rw [readHash, hparse]

structure Writable (f : Feature) : Prop where
  quality : Quality.inRange f.quality = true
  time : Feature.timeInRange f.time = true
  frame : f.frame ≤ Text.maxU64

/-- A written line is four plain fields, each of which is read as its value. -/
theorem Writable.exists_fields {f : Feature} (h : Writable f) :
    ∃ frame quality hash time : List Char,
      (encodeLine f).toList = [','].intercalate [frame, quality, hash, time] ∧
      (∀ cs ∈ [frame, quality, hash, time], ∀ c ∈ cs, Text.IsPlain c) ∧
      readFrame frame = .ok f.frame ∧ readQuality quality = .ok f.quality ∧
      readHash hash = .ok f.hash ∧ readTime time = .ok f.settled.time := by
  have hfinite := Quality.isFinite_of_inRange h.quality
  obtain ⟨hfinite', -⟩ := Feature.timeInRange_iff.1 h.time
  obtain ⟨cs, d, htext, hwrites, hpattern⟩ := Decimal.writes_plain hfinite
  have hwrites' :=
    Decimal.writes_pointed (Decimal.lastPlaceUnits timeDecimals f.time) timeDecimals
  set ds :=
    Decimal.pointed (Decimal.digitsOf (Decimal.lastPlaceUnits timeDecimals f.time))
      timeDecimals with hds
  refine ⟨Decimal.digitsOf f.frame, Decimal.signed (isNegative f.quality) cs, f.hash.hexDigits,
    Decimal.signed (isNegative f.time) ds, ?_, ?_, readFrame_digitsOf h.frame, ?_,
    readHash_hexDigits f.hash, ?_⟩
  · rw [encodeLine, htext, Decimal.fixed_eq_signed _ hfinite', ← hds, Hash.toHex]
    simp [Decimal.digitsOf]
  · simp only [List.forall_mem_cons, List.not_mem_nil, false_imp_iff, implies_true, and_true]
    exact ⟨fun c hc => Text.isPlain_of_isDigit (Decimal.isDigit_of_mem_digitsOf hc),
      fun c hc => hwrites.isPlain hc,
      fun c hc => Hash.isPlain_of_mem_hexDigits hc, fun c hc => hwrites'.isPlain hc⟩
  · rw [readQuality, readNumber_signed hwrites, hpattern, ofPattern_pattern]
    exact if_pos h.quality
  · have hsettled := Feature.timeInRange_settled h.time
    have hread : readNumber .time (Decimal.signed (isNegative f.time) ds) =
        .ok f.settled.time :=
      readNumber_signed hwrites' _
    rw [Feature.timeInRange, decide_eq_true_iff] at hsettled
    rw [readTime, hread]
    dsimp only
    rw [if_neg (not_not.2 hsettled.1), if_neg hsettled.2]

theorem Writable.decodeLine {f : Feature} (h : Writable f) :
    decodeLine (encodeLine f).toList = .ok f.settled := by
  obtain ⟨frame, quality, hash, time, htext, hplain, hf, hq, hh, ht⟩ := h.exists_fields
  rw [Fingerprint.decodeLine, htext, Text.trim_splitOn_intercalate (by simp) hplain]
  dsimp only
  rw [hf, hq, hh, ht]
  rfl

theorem Writable.encodeLine_settled {f : Feature} (h : Writable f) :
    encodeLine f.settled = encodeLine f := by
  have hfixed := Decimal.fixed_settled timeDecimals (Feature.timeInRange_iff.1 h.time).1
  simp only [encodeLine, Feature.settled, hfixed]

/-! ### Reading a written text -/

theorem Writable.isPlain_or_comma {f : Feature} (h : Writable f) {c : Char}
    (hc : c ∈ (encodeLine f).toList) :
    Text.IsPlain c ∨ c = ',' := by
  obtain ⟨frame, quality, hash, time, htext, hplain, -⟩ := h.exists_fields
  exact Text.isPlain_or_comma hplain (htext ▸ hc)

theorem not_all_isBlank_encodeLine (f : Feature) :
    ¬ (encodeLine f).toList.all Text.isBlank = true := by
  have hcomma : ',' ∈ (encodeLine f).toList := by simp [encodeLine]
  intro hall
  exact absurd (List.all_eq_true.1 hall ',' hcomma) (by decide)

theorem lines_encode {p : Fingerprint} (h : ∀ f ∈ p.features, Writable f) :
    Text.lines (encode p).toList = p.features.map fun f => (encodeLine f).toList := by
  have hbreak {c : Char} (hblank : Text.isBlank c = true) (hcomma : c ≠ ',') :
      ∀ l ∈ p.features.map fun f => (encodeLine f).toList, c ∉ l := by
    intro l hl hc
    obtain ⟨f, hf, rfl⟩ := List.mem_map.1 hl
    rcases (h f hf).isPlain_or_comma hc with hplain | heq
    · rw [hplain.1] at hblank
      cases hblank
    · exact hcomma heq
  rw [← Text.lines_endedLines (hbreak (c := '\n') rfl (by decide))
    (hbreak (c := '\r') rfl (by decide))]
  simp [encode, String.toList_join, List.flatMap_map]

theorem readLines_encodeLine {fs : List Feature} (hfs : ∀ f ∈ fs, Writable f)
    {previous : Option Feature}
    (hchain : (previous.toList ++ fs.map Feature.settled).IsChain Feature.Follows) (line : ℕ) :
    readLines previous line (fs.map fun f => (encodeLine f).toList) =
      .ok (fs.map Feature.settled) := by
  have hinked : (fs.map fun f => (encodeLine f).toList).filter IsInked =
      fs.map fun f => (encodeLine f).toList := by
    refine List.filter_eq_self.2 fun l hl => ?_
    obtain ⟨f, -, rfl⟩ := List.mem_map.1 hl
    simpa [IsInked] using not_all_isBlank_encodeLine f
  rw [readLines_eq_ok_iff, hinked, List.forall₂_map_left_iff, List.forall₂_map_right_iff,
    List.forall₂_same]
  exact ⟨fun f hf => (hfs f hf).decodeLine, hchain⟩

/-- The times that are read keep their order, so what is read is a fingerprint. -/
theorem isChain_map_settled (p : Fingerprint) :
    (p.features.map Feature.settled).IsChain Feature.Follows := by
  obtain ⟨hrange, hchain⟩ := firstFault?_eq_none_iff.1 p.valid
  rw [List.isChain_map]
  exact hchain.imp_of_mem_imp fun f g hf hg hfollows =>
    hfollows.settled (hrange f hf).2 (hrange g hg).2

theorem writable_of_mem {p : Fingerprint} (h : ∀ f ∈ p.features, f.frame ≤ Text.maxU64) :
    ∀ f ∈ p.features, Writable f := by
  intro f hf
  obtain ⟨hquality, htime⟩ := (firstFault?_eq_none_iff.1 p.valid).1 f hf
  exact ⟨hquality, htime, h f hf⟩

theorem exists_decode_encode {p : Fingerprint} (h : ∀ f ∈ p.features, f.frame ≤ Text.maxU64) :
    ∃ q, decode (encode p) = .ok q ∧ q.features = p.features.map Feature.settled := by
  have hwritable := writable_of_mem h
  rw [exists_decode_iff, ← readLines_lines, lines_encode hwritable]
  refine readLines_encodeLine hwritable ?_ 1
  exact isChain_map_settled p

/-! ### Frame numbers that are read -/

theorem frame_le_of_decode {text : String} {p : Fingerprint} (h : decode text = .ok p) :
    ∀ f ∈ p.features, f.frame ≤ Text.maxU64 := by
  obtain ⟨hlines, -⟩ := readLines_eq_ok_iff.1 (decode_eq_ok_iff.1 h).1
  refine ((List.forall₂_and_left _ _).1 (hlines.flip.imp fun f l hline => ⟨?_, hline⟩)).1
  obtain ⟨frame, quality, hash, time, -, hframe, -⟩ := decodeLine_eq_ok_iff_fields.1 hline
  unfold readFrame at hframe
  split at hframe
  · rename_i n hparse
    cases hframe
    exact Text.le_of_parseNatural hparse
  · cases hframe

theorem encode_eq_of_map_settled {p q : Fingerprint} (h : ∀ f ∈ p.features, Writable f)
    (hq : q.features = p.features.map Feature.settled) : encode q = encode p := by
  rw [encode, encode, hq, List.map_map]
  refine congrArg String.join (List.map_congr_left fun f hf => ?_)
  rw [Function.comp_apply, (h f hf).encodeLine_settled]

/-- Writing and reading change nothing but the times, which become what their decimals denote,
and the text that is written is kept from then on. -/
theorem decode_encode :
    (∀ p : Fingerprint, (∀ f ∈ p.features, f.frame ≤ Text.maxU64) →
      ∃ q, decode (encode p) = .ok q ∧
        List.Forall₂ (fun f g => g.frame = f.frame ∧ g.hash = f.hash ∧ g.quality = f.quality ∧
          Decimal.literal? (Decimal.fixed timeDecimals f.time) = some g.time)
          p.features q.features ∧
        encode q = encode p) ∧
    ∀ (text : String) (p : Fingerprint), decode text = .ok p →
      ∃ q, decode (encode p) = .ok q ∧ encode q = encode p := by
  have hround (p : Fingerprint) (h : ∀ f ∈ p.features, f.frame ≤ Text.maxU64) :
      ∃ q, decode (encode p) = .ok q ∧ q.features = p.features.map Feature.settled ∧
        encode q = encode p := by
    obtain ⟨q, hdecode, hq⟩ := exists_decode_encode h
    exact ⟨q, hdecode, hq, encode_eq_of_map_settled (writable_of_mem h) hq⟩
  constructor
  · intro p h
    obtain ⟨q, hdecode, hq, htext⟩ := hround p h
    refine ⟨q, hdecode, ?_, htext⟩
    rw [hq, List.forall₂_map_right_iff, List.forall₂_same]
    intro f hf
    have hfinite := (Feature.timeInRange_iff.1 (writable_of_mem h f hf).time).1
    exact ⟨rfl, rfl, rfl, Decimal.literal?_fixed timeDecimals hfinite⟩
  · intro text p h
    obtain ⟨q, hdecode, -, htext⟩ := hround p (frame_le_of_decode h)
    exact ⟨q, hdecode, htext⟩

/-- Times that are no multiples of a thousandth: negative zero, two that meet when they are
written, and one where neighbouring doubles lie a hundred thousandths apart. -/
def unsettledTimes : Fingerprint :=
  ⟨[⟨0, -0.0, ⟨0⟩, 0.1⟩, ⟨1, 0.0001, ⟨1⟩, 33.3⟩, ⟨2, 0.0004, ⟨2⟩, 5e-324⟩,
    ⟨Text.maxU64, 1e15, ⟨3⟩, 100⟩], 0, 0, by decide +kernel⟩

def untidyText : String :=
  "\n18446744073709551615, 12.50 ," ++
    "00000000000000000000000000000000000000000000000000000000000000FF,+5e-4\r\n"

theorem decode_encode_unsettledTimes :
    (∃ q, decode (encode unsettledTimes) = .ok q ∧
      List.Forall₂ (fun f g => g.frame = f.frame ∧ g.hash = f.hash ∧ g.quality = f.quality ∧
        Decimal.literal? (Decimal.fixed timeDecimals f.time) = some g.time)
        unsettledTimes.features q.features ∧
      encode q = encode unsettledTimes) ∧
    ∃ p, decode untidyText = .ok p ∧ p.size = 1 ∧ ∃ q, decode (encode p) = .ok q ∧
      encode q = encode p := by
  obtain ⟨hround, hkept⟩ := decode_encode
  refine ⟨hround unsettledTimes (by decide), ?_⟩
  have hread : (decode untidyText).toOption.map size = some 1 := by decide +kernel
  obtain ⟨p, hp, hsize⟩ := Option.map_eq_some_iff.1 hread
  have hdecode : decode untidyText = .ok p := by
    cases h : decode untidyText with
    | error e =>
        rw [h] at hp
        cases hp
    | ok p' =>
        rw [h] at hp
        cases hp
        rfl
  exact ⟨p, hdecode, hsize, hkept untidyText p hdecode⟩

end Fingerprint

end VideoFingerprint
