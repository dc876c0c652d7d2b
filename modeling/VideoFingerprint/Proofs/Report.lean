import Mathlib.Data.List.Forall2
import VideoFingerprint.Proofs.Outcome
import VideoFingerprint.Report

/-!
What a report on a search says. It goes through the hits in their order and gives each of them
lines of its own, or an entry of its own in a JSON document, with the path, both shares and, if
they are wanted, the segments; it holds nothing else. A JSON document cannot be written if a
path is no text, and this is the only reason why there is no report.
-/

namespace VideoFingerprint.Report

open Json

variable {format : ReportFormat} {verbose : Bool} {h : IndexHit FilePath}
  {hits : List (IndexHit FilePath)}

/-- The lines on a hit. -/
def HasLines (verbose : Bool) (h : IndexHit FilePath) (lines : List String) : Prop :=
  ∃ more, lines = (Decimal.padLeft 6 (percent h.result.score) ++ "% " ++
      Decimal.padLeft 6 (percent h.result.referenceScore) ++ "%  " ++ h.name.display) :: more ∧
    more = if verbose then h.result.segments.map fun s => "    " ++ segmentLine s else []

/-- The entry of a hit in a JSON document. -/
def HasEntry (verbose : Bool) (h : IndexHit FilePath) (entry : String) : Prop :=
  ∃ path, h.name.text? = some path ∧
    entry = "  \x7b\n    \"path\": " ++ Value.quoted path ++
      ",\n    \"score\": " ++ Value.floatText h.result.score ++
      ",\n    \"reference_score\": " ++ Value.floatText h.result.referenceScore ++
      (if verbose then ",\n    \"segments\": " ++ (Form.value h.result.segments).pretty 2
        else "") ++
      "\n  \x7d"

/-- The text of a report: the lines of the hits, or an array of their entries,
in their order. -/
def Lists (format : ReportFormat) (verbose : Bool) (hits : List (IndexHit FilePath))
    (text : String) : Prop :=
  match format with
  | .normal => ∃ blocks, List.Forall₂ (HasLines verbose) hits blocks ∧
      text = String.join (blocks.flatten.map (· ++ "\n"))
  | .json => ∃ entries, List.Forall₂ (HasEntry verbose) hits entries ∧
      text = if entries = [] then "[]\n" else "[\n" ++ ",\n".intercalate entries ++ "\n]\n"

/-! ### Lines -/

theorem hasLines_iff {lines : List String} :
    HasLines verbose h lines ↔ lines = hitLines verbose h := by
  have hline : hitLine h = Decimal.padLeft 6 (percent h.result.score) ++ "% " ++
      Decimal.padLeft 6 (percent h.result.referenceScore) ++ "%  " ++ h.name.display := by
    apply String.toList_injective
    simp [hitLine, percentColumn, percentWidth]
  rw [HasLines, hitLines, hline]
  constructor
  · rintro ⟨more, rfl, rfl⟩
    rfl
  · rintro rfl
    exact ⟨_, rfl, rfl⟩

theorem forall₂_hasLines_iff {blocks : List (List String)} :
    List.Forall₂ (HasLines verbose) hits blocks ↔ blocks = hits.map (hitLines verbose) := by
  have hgraph : HasLines verbose = fun h lines => hitLines verbose h = lines :=
    funext₂ fun h lines => propext (hasLines_iff.trans eq_comm)
  rw [hgraph, ← List.forall₂_map_left_iff, List.forall₂_eq_eq_eq, eq_comm]

/-! ### Entries -/

def entryOf (v : Value) : String := Value.indent 1 ++ v.pretty 1

theorem hasEntry_iff {entry : String} :
    HasEntry verbose h entry ↔ ∃ v, hitValue verbose h = .ok v ∧ entry = entryOf v := by
  have hentry (path : String) : entryOf (.object ([("path", .string path),
      ("score", .float h.result.score), ("reference_score", .float h.result.referenceScore)]
      ++ if verbose then [("segments", Form.value h.result.segments)] else [])) =
      "  \x7b\n    \"path\": " ++ Value.quoted path ++
        ",\n    \"score\": " ++ Value.floatText h.result.score ++
        ",\n    \"reference_score\": " ++ Value.floatText h.result.referenceScore ++
        (if verbose then ",\n    \"segments\": " ++ (Form.value h.result.segments).pretty 2
          else "") ++ "\n  \x7d" := by
    have hthree : entryOf (.object [("path", .string path), ("score", .float h.result.score),
        ("reference_score", .float h.result.referenceScore)]) =
      "  " ++ ("\x7b" ++ "\n" ++
        ("    " ++ ("\"path\"" ++ ": " ++ Value.quoted path) ++ ",\n" ++
          ("    " ++ ("\"score\"" ++ ": " ++ Value.floatText h.result.score)) ++ ",\n" ++
          ("    " ++ ("\"reference_score\"" ++ ": " ++
            Value.floatText h.result.referenceScore)))
        ++ "\n" ++ "  " ++ "\x7d") := rfl
    have hfour : entryOf (.object [("path", .string path), ("score", .float h.result.score),
        ("reference_score", .float h.result.referenceScore),
        ("segments", Form.value h.result.segments)]) =
      "  " ++ ("\x7b" ++ "\n" ++
        ("    " ++ ("\"path\"" ++ ": " ++ Value.quoted path) ++ ",\n" ++
          ("    " ++ ("\"score\"" ++ ": " ++ Value.floatText h.result.score)) ++ ",\n" ++
          ("    " ++ ("\"reference_score\"" ++ ": " ++
            Value.floatText h.result.referenceScore))
          ++ ",\n" ++ ("    " ++
            ("\"segments\"" ++ ": " ++ (Form.value h.result.segments).pretty 2)))
        ++ "\n" ++ "  " ++ "\x7d") := rfl
    apply String.toList_injective
    cases verbose with
    | false =>
        simp [hthree]
    | true => simp [hfour]
  rw [HasEntry]
  simp only [← hentry]
  unfold hitValue
  cases h.name.text? with
  | none => simp
  | some path => simp [eq_comm]

theorem exists_entries_iff {entries : List String} :
    List.Forall₂ (HasEntry verbose) hits entries ↔
      ∃ values, hits.mapM (hitValue verbose) = .ok values ∧ entries = values.map entryOf := by
  simp only [Outcome.mapM_eq_ok_iff]
  induction hits generalizing entries with
  | nil => simp
  | cons h hits ih =>
      simp only [List.forall₂_cons_left_iff, hasEntry_iff, ih]
      constructor
      · rintro ⟨entry, entries, ⟨v, hv, rfl⟩, ⟨values, hvalues, rfl⟩, rfl⟩
        exact ⟨v :: values, ⟨v, values, hv, hvalues, rfl⟩, rfl⟩
      · rintro ⟨values, ⟨v, values, hv, hvalues, rfl⟩, rfl⟩
        exact ⟨entryOf v, _, ⟨v, hv, rfl⟩, ⟨values, hvalues, rfl⟩, rfl⟩

theorem prettyItems_eq (level : ℕ) (values : List Value) :
    Value.prettyItems level values = values.map (Value.pretty (level + 1)) := by
  induction values with
  | nil => rfl
  | cons v values ih => rw [Value.prettyItems, ih, List.map_cons]

theorem pretty_array (values : List Value) : (Value.array values).pretty 0 ++ "\n" =
    if values.map entryOf = [] then "[]\n"
    else "[\n" ++ ",\n".intercalate (values.map entryOf) ++ "\n]\n" := by
  cases values with
  | nil => rfl
  | cons v values =>
      have hitems :
          (Value.prettyItems 0 (v :: values)).map (fun part => Value.indent (0 + 1) ++ part) =
          (v :: values).map entryOf := by
        rw [prettyItems_eq, List.map_map]
        rfl
      have hne : (v :: values).map entryOf ≠ [] := List.cons_ne_nil _ _
      have hindent : Value.indent 0 = "" := rfl
      rw [if_neg hne, Value.pretty, Value.block, hitems, hindent]
      apply String.toList_injective
      simp [Value.prettyItems]

/-! ### Whole reports -/

/-- A report lists the hits. -/
theorem search_eq_ok_iff {text : String} :
    search format verbose hits = .ok text ↔ Lists format verbose hits text := by
  cases format with
  | normal =>
      simp only [search, Lists, forall₂_hasLines_iff, exists_eq_left, Except.ok.injEq, unlines,
        List.flatMap_def, eq_comm]
  | json =>
      simp only [search, Lists, exists_entries_iff, Outcome.map_eq_ok_iff, pretty_array]
      constructor
      · rintro ⟨values, hvalues, rfl⟩
        exact ⟨_, ⟨values, hvalues, rfl⟩, rfl⟩
      · rintro ⟨_, ⟨values, hvalues, rfl⟩, rfl⟩
        exact ⟨values, hvalues, rfl⟩

theorem mapM_hitValue_eq_error_iff {reason : String} :
    hits.mapM (hitValue verbose) = .error reason ↔
      reason = pathNotText ∧ ∃ h ∈ hits, h.name.text? = none := by
  induction hits with
  | nil => simp [pure, Except.pure]
  | cons h hits ih =>
      simp only [List.exists_mem_cons_iff]
      rw [List.mapM_cons, hitValue]
      cases h.name.text? with
      | none => simp [bind, Except.bind, eq_comm]
      | some path =>
          simp only [bind, Except.bind, reduceCtorEq, false_or, ← ih]
          cases hits.mapM (hitValue verbose) <;> simp [pure, Except.pure]

/-- There is no report exactly if a path has no place in it. -/
theorem search_eq_error_iff {reason : String} : search format verbose hits = .error reason ↔
    format = .json ∧ reason = pathNotText ∧ ∃ h ∈ hits, h.name.text? = none := by
  cases format with
  | normal => simp [search]
  | json => simp [search, Outcome.map_eq_error_iff, mapM_hitValue_eq_error_iff]

end VideoFingerprint.Report
