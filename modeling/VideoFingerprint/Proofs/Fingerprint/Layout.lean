import Mathlib.Logic.Relation
import VideoFingerprint.Proofs.Fingerprint.Grammar
import VideoFingerprint.Proofs.Fingerprint.Locality

/-!
The layout of a text. Lines may end with a carriage return or without it, the last one also at
the end of the text; blank lines may stand anywhere, and blanks on both sides of every field;
the digits of a hash may be in either case. A text that is changed in such ways, any number of
times and in any order, is read as the same fingerprint. All of this follows from what the
lines of a text give, blank lines apart: no change of the layout changes that.
-/

namespace VideoFingerprint.Fingerprint

open Outcome

/-! ### Changes of the layout -/

/-- A place where a field may begin: the beginning of the text, or after a line
feed or a comma. -/
def FieldStarts (before : String) : Prop :=
  before = "" ∨ ∃ s, before = s ++ "\n" ∨ before = s ++ ","

/-- A place where a field may end: before a comma, before the end of a line, or the
end of the text. -/
def FieldEnds (after : String) : Prop :=
  after = "" ∨ ∃ s, after = "," ++ s ∨ after = "\n" ++ s ∨ after = "\r\n" ++ s

/-- The line of four fields, as they are. -/
def lineOf (frame quality hash time : String) : String :=
  frame ++ "," ++ quality ++ "," ++ hash ++ "," ++ time

/-- One change of the layout of a text. -/
inductive LayoutEdit : String → String → Prop
  | carriageReturn (before after : String) :
  LayoutEdit (before ++ "\n" ++ after) (before ++ "\r\n" ++ after)
  | addLastEnd (text : String) : LayoutEdit text (text ++ "\n")
  | dropLastEnd (text lineEnd : String) (hend : lineEnd = "\n" ∨ lineEnd = "\r\n") :
    LayoutEdit (text ++ lineEnd) text
  | blankLine (before line after : String) (hstart : before = "" ∨ ∃ s, before = s ++ "\n")
      (hline : line.toList.all Text.isBlank = true) :
        LayoutEdit (before ++ after) (before ++ line ++ "\n" ++ after)
  | blanks (before blanks after : String) (hplace : FieldStarts before ∨ FieldEnds after)
      (hblanks : blanks.toList.all Text.isBlank = true) (hunbroken : '\n' ∉ blanks.toList) :
      LayoutEdit (before ++ after) (before ++ blanks ++ after)
  | digitCase (text before after frame quality hash hash' time : String)
      (hline : LineAt text before (lineOf frame quality hash time) after)
      (hfields : ∀ field ∈ [frame, quality, hash, time], ',' ∉ field.toList)
      (hcase : hash'.toList.map Char.toLower = hash.toList.map Char.toLower) :
      LayoutEdit text (before ++ lineOf frame quality hash' time ++ after)

/-- The second text comes from the first by changes of the layout. -/
def Relaid : String → String → Prop := Relation.ReflTransGen LayoutEdit

/-! ### What lines give -/

def readings (ls : List (List Char)) : List (Option Feature) :=
  (ls.filter IsInked).map fun l => (decodeLine l).toOption

variable {l m left middle right blanks : List Char} {ls ms : List (List Char)}

@[simp] theorem readings_append (ls ms : List (List Char)) :
    readings (ls ++ ms) = readings ls ++ readings ms := by
  rw [readings, List.filter_append, List.map_append]
  rfl

theorem readings_cons (l : List Char) (ls : List (List Char)) :
    readings (l :: ls) = readings [l] ++ readings ls :=
  readings_append [l] ls

theorem readings_of_blank (h : ∀ l ∈ ls, IsInked l = false) : readings ls = [] := by
  rw [readings, List.filter_eq_nil_iff.2 fun l hl => by simp [h l hl], List.map_nil]

theorem readings_singleton_congr (hinked : IsInked l = IsInked m)
    (hdecode : (decodeLine l).toOption = (decodeLine m).toOption) :
    readings [l] = readings [m] := by
  cases hm : IsInked m <;> simp [readings, hinked, hm, hdecode]

/-- A text is read when all of its lines give features that are in order. -/
theorem decode_eq_ok_iff_readings {text : String} {p : Fingerprint} :
    decode text = .ok p ↔ readings (text.toList.splitOn '\n') = p.features.map some ∧
      p.interval = typicalInterval p.features ∧ p.duration = lastTime p.features := by
  have hchain : p.features.IsChain Feature.Follows := (firstFault?_eq_none_iff.1 p.valid).2
  rw [decode_eq_ok_iff, readLines_lines, readLines_eq_ok_iff, readings, Option.toList_none,
    List.nil_append, and_iff_left hchain, ← List.forall₂_eq_eq_eq, List.forall₂_map_left_iff,
    List.forall₂_map_right_iff]
  simp only [toOption_eq_some_iff]

/-- What a text gives around a stretch of one of its lines. -/
theorem readings_splitOn_append_append (hleft : left.splitOn '\n' = ls ++ [l])
    (hright : right.splitOn '\n' = m :: ms) (hmiddle : '\n' ∉ middle) :
    readings ((left ++ middle ++ right).splitOn '\n') =
      readings ls ++ readings [l ++ middle ++ m] ++ readings ms := by
  have hone : middle.splitOn '\n' = [] ++ [middle] := Text.splitOn_eq_singleton hmiddle
  rw [Text.splitOn_append (Text.splitOn_append hleft hone) hright, readings_append,
    readings_cons, ← List.append_assoc]

/-- What a text gives when one of its lines ends in the middle. -/
theorem readings_splitOn_append_cons (left right : List Char) :
    readings ((left ++ '\n' :: right).splitOn '\n') =
      readings (left.splitOn '\n') ++ readings (right.splitOn '\n') := by
  rw [List.splitOn_append_cons_self, readings_append]

theorem readings_splitOn_of_blank (h : l.all Text.isBlank = true) :
    readings (l.splitOn '\n') = [] := by
  refine readings_of_blank fun piece hpiece => ?_
  obtain ⟨before, after, hsplit⟩ := List.append_of_mem hpiece
  obtain ⟨rest, rfl, -⟩ := Text.exists_around_piece hsplit
  rw [List.all_append, List.all_append, Bool.and_eq_true, Bool.and_eq_true] at h
  rw [IsInked, h.1.2]
  rfl

/-! ### Blanks around fields -/

/-- Where a field may begin, the line so far has nothing after its last comma. -/
theorem eq_nil_of_fieldStarts {before : String} {last : List Char} {fields : List (List Char)}
    (h : FieldStarts before) (hbefore : before.toList.splitOn '\n' = ls ++ [l])
    (hl : l.splitOn ',' = fields ++ [last]) : last = [] := by
  have hline : (before.toList.splitOn '\n').getLast? = some l := by
    rw [hbefore, List.getLast?_concat]
  have hfield : (l.splitOn ',').getLast? = some last := by rw [hl, List.getLast?_concat]
  rcases h with rfl | ⟨s, rfl | rfl⟩
  · obtain rfl : [] = l := Option.some.inj hline
    exact (Option.some.inj hfield).symm
  · rw [String.toList_append, show "\n".toList = ['\n'] from rfl,
      List.splitOn_append_cons_self, List.splitOn_nil, List.getLast?_concat] at hline
    obtain rfl : [] = l := Option.some.inj hline
    exact (Option.some.inj hfield).symm
  · obtain ⟨ms, m, hsplit⟩ := Text.exists_splitOn_eq_concat '\n' s.toList
    rw [String.toList_append,
      Text.splitOn_append hsplit (rfl : ",".toList.splitOn '\n' = [[',']]),
      List.getLast?_concat] at hline
    obtain rfl : m ++ [','] = l := Option.some.inj hline
    rw [List.splitOn_append_cons_self, List.splitOn_nil, List.getLast?_concat] at hfield
    exact (Option.some.inj hfield).symm

/-- Where a field may end, the rest of the line has nothing before its first comma but perhaps
a carriage return. -/
theorem isBlank_of_fieldEnds {after : String} {first : List Char} {fields : List (List Char)}
    (h : FieldEnds after) (hafter : after.toList.splitOn '\n' = m :: ms)
    (hm : m.splitOn ',' = first :: fields) :
    first.all Text.isBlank = true := by
  have hline : (after.toList.splitOn '\n').head? = some m := by rw [hafter, List.head?_cons]
  have hfield : (m.splitOn ',').head? = some first := by rw [hm, List.head?_cons]
  rcases h with rfl | ⟨s, rfl | rfl | rfl⟩
  · obtain rfl : [] = m := Option.some.inj hline
    rw [← Option.some.inj hfield]
    rfl
  · obtain ⟨k, ks, hsplit⟩ := Text.exists_splitOn_eq_cons '\n' s.toList
    rw [String.toList_append, show ",".toList = [','] from rfl, List.singleton_append,
      Text.splitOn_cons_of_ne (by decide) hsplit, List.head?_cons] at hline
    obtain rfl : ',' :: k = m := Option.some.inj hline
    rw [Text.splitOn_cons_self, List.head?_cons] at hfield
    rw [← Option.some.inj hfield, List.all_nil]
  · rw [String.toList_append, show "\n".toList = ['\n'] from rfl, List.singleton_append,
      Text.splitOn_cons_self, List.head?_cons] at hline
    obtain rfl : [] = m := Option.some.inj hline
    rw [← Option.some.inj hfield]
    rfl
  · have hreturn : ("\r\n" ++ s).toList = ['\r'] ++ '\n' :: s.toList := String.toList_append
    rw [hreturn, List.splitOn_append_cons_self, Text.splitOn_eq_singleton (by decide),
      List.singleton_append, List.head?_cons] at hline
    obtain rfl : ['\r'] = m := Option.some.inj hline
    rw [← Option.some.inj hfield]
    rfl

theorem readAlike_append_append {first last : List Char} {before after : List (List Char)}
    (h : blanks.all Text.isBlank = true) (hl : l.splitOn ',' = before ++ [last])
    (hm : m.splitOn ',' = first :: after)
    (hside : last.all Text.isBlank = true ∨ first.all Text.isBlank = true) :
    ReadAlike (l ++ blanks ++ m) (l ++ m) := by
  refine ⟨?_, decodeLine_append_append h hl hm hside⟩
  rw [IsInked, IsInked, List.all_append, List.all_append, List.all_append, h, Bool.and_true]

theorem readings_blanks {before after : String} (hplace : FieldStarts before ∨ FieldEnds after)
    (hblanks : blanks.all Text.isBlank = true) (hunbroken : '\n' ∉ blanks) :
    readings ((before.toList ++ blanks ++ after.toList).splitOn '\n') =
      readings ((before.toList ++ after.toList).splitOn '\n') := by
  obtain ⟨ls, l, hbefore⟩ := Text.exists_splitOn_eq_concat '\n' before.toList
  obtain ⟨fields, last, hl⟩ := Text.exists_splitOn_eq_concat ',' l
  obtain ⟨m, ms, hafter⟩ := Text.exists_splitOn_eq_cons '\n' after.toList
  obtain ⟨first, fields', hm⟩ := Text.exists_splitOn_eq_cons ',' m
  have hside : last.all Text.isBlank = true ∨ first.all Text.isBlank = true := by
    refine hplace.imp (fun hstarts => ?_) fun hends => isBlank_of_fieldEnds hends hafter hm
    rw [eq_nil_of_fieldStarts hstarts hbefore hl, List.all_nil]
  obtain ⟨hinked, hdecode⟩ := readAlike_append_append hblanks hl hm hside
  have hstretch := readings_singleton_congr hinked (congrArg Except.toOption hdecode)
  rw [readings_splitOn_append_append hbefore hafter hunbroken, hstretch,
    Text.splitOn_append hbefore hafter, readings_append, readings_cons _ ms,
    ← List.append_assoc]

/-! ### Hash digits in either case -/

theorem isBlank_toLower (c : Char) : Text.isBlank c.toLower = Text.isBlank c := by
  by_cases h : c.toLower = c
  · rw [h]
  · obtain ⟨n, hn, rfl⟩ := Text.exists_of_toLower_ne h
    revert n
    decide

theorem trim_map_toLower (cs : List Char) :
    Text.trim (cs.map Char.toLower) = (Text.trim cs).map Char.toLower := by
  have hblank : Text.isBlank ∘ Char.toLower = Text.isBlank := funext isBlank_toLower
  simp only [Text.trim, List.dropWhile_map, ← List.map_reverse, hblank]

/-- A character that is no letter stands in a text if it stands there in another case. -/
theorem mem_of_map_toLower_eq {c : Char} (hself : c.toLower = c)
    (hletters : ∀ n < 26, (Char.ofNat (65 + n)).toLower ≠ c) {cs ds : List Char}
    (h : cs.map Char.toLower = ds.map Char.toLower) (hmem : c ∈ cs) : c ∈ ds := by
  have hmem' : c ∈ ds.map Char.toLower := h ▸ List.mem_map.2 ⟨c, hmem, hself⟩
  obtain ⟨d, hd, hdc⟩ := List.mem_map.1 hmem'
  by_cases hsame : d.toLower = d
  · rwa [← hdc, hsame]
  · obtain ⟨n, hn, rfl⟩ := Text.exists_of_toLower_ne hsame
    exact absurd hdc (hletters n hn)

theorem isHash_map_toLower {cs : List Char} {h : Hash} :
    IsHash (cs.map Char.toLower) h ↔ IsHash cs h := by
  have hdigit (c : Char) : Text.IsHexDigit c.toLower ↔ Text.IsHexDigit c := by
    rw [← Text.isSome_hexValue?_iff, ← Text.isSome_hexValue?_iff, Text.hexValue?_toLower]
  simp only [IsHash, List.length_map, List.forall_mem_map, hdigit,
    Text.numberOfHex_map_toLower]

/-- A hash is read alike from digits in either case, with blanks around it. -/
theorem readHash_trim_congr {cs ds : List Char} (h : cs.map Char.toLower = ds.map Char.toLower)
    {v : Hash} :
    readHash (Text.trim cs) = .ok v ↔ readHash (Text.trim ds) = .ok v := by
  rw [readHash_eq_ok_iff, readHash_eq_ok_iff, ← isHash_map_toLower, ← trim_map_toLower, h,
    trim_map_toLower, isHash_map_toLower]

section DigitCase

variable {frame quality hash hash' time : String}

theorem splitOn_lineOf (h : ∀ field ∈ [frame, quality, hash, time], ',' ∉ field.toList) :
    (lineOf frame quality hash time).toList.splitOn ',' =
      [frame.toList, quality.toList, hash.toList, time.toList] := by
  refine (Text.splitOn_eq_iff (List.cons_ne_nil _ _)).2 ⟨?_, ?_⟩
  · simp [lineOf, List.intercalate_cons_cons]
  · simpa using h

theorem decodeLine_lineOf_congr
    (h : ∀ field ∈ [frame, quality, hash, time], ',' ∉ field.toList)
    (hcase : hash'.toList.map Char.toLower = hash.toList.map Char.toLower) :
    (decodeLine (lineOf frame quality hash' time).toList).toOption =
      (decodeLine (lineOf frame quality hash time).toList).toOption := by
  have hcomma : ',' ∉ hash'.toList := fun hmem =>
    h hash (by simp) (mem_of_map_toLower_eq (by decide) (by decide) hcase hmem)
  have h' : ∀ field ∈ [frame, quality, hash', time], ',' ∉ field.toList := by
    simp only [List.forall_mem_cons] at h ⊢
    exact ⟨h.1, h.2.1, hcomma, h.2.2.2⟩
  refine Option.ext fun f => ?_
  rw [toOption_eq_some_iff, toOption_eq_some_iff, decodeLine_eq_ok_iff_fields,
    decodeLine_eq_ok_iff_fields, splitOn_lineOf h, splitOn_lineOf h']
  simp only [List.cons.injEq, and_true]
  constructor
  · rintro ⟨_, _, _, _, ⟨rfl, rfl, rfl, rfl⟩, hframe, hquality, hhash, htime⟩
    exact ⟨_, _, _, _, ⟨rfl, rfl, rfl, rfl⟩, hframe, hquality,
      (readHash_trim_congr hcase).1 hhash, htime⟩
  · rintro ⟨_, _, _, _, ⟨rfl, rfl, rfl, rfl⟩, hframe, hquality, hhash, htime⟩
    exact ⟨_, _, _, _, ⟨rfl, rfl, rfl, rfl⟩, hframe, hquality,
      (readHash_trim_congr hcase).2 hhash, htime⟩

theorem isInked_lineOf : IsInked (lineOf frame quality hash time).toList = true := by
  have hcomma : Text.isBlank ',' = false := by decide
  simp [IsInked, lineOf, hcomma]

/-- The lines of a text around one of them, whatever stands in its place. -/
theorem LineAt.exists_splitOn {text before line after : String}
    (h : LineAt text before line after) :
    ∃ ls ms, ∀ line' : String, '\n' ∉ line'.toList →
      (before ++ line' ++ after).toList.splitOn '\n' = ls ++ line'.toList :: ms := by
  obtain ⟨ms, hms⟩ : ∃ ms, ∀ line' : String, '\n' ∉ line'.toList →
      (line'.toList ++ after.toList).splitOn '\n' = line'.toList :: ms := by
    rcases h.ends with rfl | ⟨s, rfl⟩
    · refine ⟨[], fun line' hline' => ?_⟩
      rw [String.toList_empty, List.append_nil, Text.splitOn_eq_singleton hline']
    · refine ⟨s.toList.splitOn '\n', fun line' hline' => ?_⟩
      rw [String.toList_append]
      exact List.splitOn_append_cons_self_of_not_mem hline' s.toList
  rcases h.starts with rfl | ⟨s, rfl⟩
  · refine ⟨[], ms, fun line' hline' => ?_⟩
    rw [String.empty_append, String.toList_append, hms line' hline', List.nil_append]
  · refine ⟨s.toList.splitOn '\n', ms, fun line' hline' => ?_⟩
    rw [← hms line' hline', String.append_assoc, splitOn_append_lineFeed, String.toList_append]

theorem readings_digitCase {text before after : String}
    (hline : LineAt text before (lineOf frame quality hash time) after)
    (hfields : ∀ field ∈ [frame, quality, hash, time], ',' ∉ field.toList)
    (hcase : hash'.toList.map Char.toLower = hash.toList.map Char.toLower) :
    readings ((before ++ lineOf frame quality hash' time ++ after).toList.splitOn '\n') =
      readings (text.toList.splitOn '\n') := by
  obtain ⟨ls, ms, hsplit⟩ := hline.exists_splitOn
  have hunbroken : '\n' ∉ (lineOf frame quality hash' time).toList := by
    have hmem : '\n' ∈ hash'.toList → '\n' ∈ hash.toList :=
      mem_of_map_toLower_eq (by decide) (by decide) hcase
    have hfree := hline.unbroken
    simp only [lineOf, String.toList_append, List.mem_append, not_or] at hfree ⊢
    exact ⟨⟨⟨hfree.1.1.1, fun h => hfree.1.1.2 (hmem h)⟩, hfree.1.2⟩, hfree.2⟩
  have hstretch := readings_singleton_congr (isInked_lineOf.trans isInked_lineOf.symm)
    (decodeLine_lineOf_congr hfields hcase)
  rw [hline.eq, hsplit _ hunbroken, hsplit _ hline.unbroken, readings_append, readings_append,
    readings_cons, hstretch, ← readings_cons]

end DigitCase

/-! ### The layout as a whole -/

theorem readings_carriageReturn (before after : String) :
    readings ((before ++ "\r\n" ++ after).toList.splitOn '\n') =
      readings ((before ++ "\n" ++ after).toList.splitOn '\n') := by
  have hends : FieldEnds ("\n" ++ after) := .inr ⟨after, .inr (.inl rfl)⟩
  have hblank : ['\r'].all Text.isBlank = true := by decide
  have hreturn := readings_blanks (.inr hends : FieldStarts before ∨ _) hblank (by decide)
  simpa using hreturn

theorem readings_lastEnd (text : String) :
    readings ((text ++ "\n").toList.splitOn '\n') = readings (text.toList.splitOn '\n') := by
  have hlast : readings ([].splitOn '\n') = [] := readings_splitOn_of_blank rfl
  rw [String.toList_append]
  exact (readings_splitOn_append_cons text.toList []).trans (by rw [hlast, List.append_nil])

theorem readings_blankLine {before line after : String}
    (hstart : before = "" ∨ ∃ s, before = s ++ "\n")
    (hline : line.toList.all Text.isBlank = true) :
    readings ((before ++ line ++ "\n" ++ after).toList.splitOn '\n') =
      readings ((before ++ after).toList.splitOn '\n') := by
  have hrest : readings ((line.toList ++ '\n' :: after.toList).splitOn '\n') =
      readings (after.toList.splitOn '\n') := by
    rw [readings_splitOn_append_cons, readings_splitOn_of_blank hline, List.nil_append]
  rcases hstart with rfl | ⟨s, rfl⟩
  · simpa using hrest
  · have hbefore := readings_splitOn_append_cons s.toList
    simpa [hbefore] using hrest

theorem readings_layoutEdit {t u : String} (h : LayoutEdit t u) :
    readings (u.toList.splitOn '\n') = readings (t.toList.splitOn '\n') := by
  cases h with
  | carriageReturn before after => exact readings_carriageReturn before after
  | addLastEnd => exact readings_lastEnd t
  | dropLastEnd _ lineEnd hend =>
      rcases hend with rfl | rfl
      · exact (readings_lastEnd u).symm
      · have hreturn := readings_carriageReturn u ""
        rw [String.append_empty, String.append_empty] at hreturn
        exact ((readings_lastEnd u).symm.trans hreturn.symm)
  | blankLine before line after hstart hline => exact readings_blankLine hstart hline
  | blanks before blanks after hplace hblanks hunbroken =>
      simp only [String.toList_append]
      exact readings_blanks hplace hblanks hunbroken
  | digitCase _ before after frame quality hash hash' time hline hfields hcase =>
      exact readings_digitCase hline hfields hcase

/-- A text is read as the same fingerprint, or is none, whatever its layout. -/
theorem decode_relaid {t u : String} (h : Relaid t u) (p : Fingerprint) :
    decode t = .ok p ↔ decode u = .ok p := by
  have hreadings : readings (u.toList.splitOn '\n') = readings (t.toList.splitOn '\n') := by
    induction h with
    | refl => rfl
    | tail _ hedit ih => exact (readings_layoutEdit hedit).trans ih
  rw [decode_eq_ok_iff_readings, decode_eq_ok_iff_readings, hreadings]

def repeatedLine (digits : String) : String :=
  lineOf "7" "50" (String.join (List.replicate 4 digits)) "1.5"

def tidyText : String := repeatedLine "0123456789abcdef" ++ "\n"

/-- The same line after a blank one, with blanks around a field, the hash in
capitals and no end. -/
def relaidText : String :=
  "\u3000\r\n7,\t50," ++ String.join (List.replicate 4 "0123456789ABCDEF") ++ ",1.5"

theorem relaid_tidyText : Relaid tidyText relaidText := by
  have hcase : LayoutEdit tidyText (repeatedLine "0123456789ABCDEF" ++ "\n") := by
    have hline : LineAt tidyText "" (repeatedLine "0123456789abcdef") "\n" :=
      ⟨by decide +kernel, by decide +kernel, .inl rfl, .inr ⟨"", rfl⟩⟩
    have hedit := LayoutEdit.digitCase tidyText "" "\n" "7" "50" _
      (String.join (List.replicate 4 "0123456789ABCDEF")) "1.5" hline (by decide +kernel)
        (by decide +kernel)
    rwa [String.empty_append] at hedit
  have hblank : LayoutEdit (repeatedLine "0123456789ABCDEF" ++ "\n")
      ("\u3000\r\n" ++ (repeatedLine "0123456789ABCDEF" ++ "\n")) := by
    have hedit :=
      LayoutEdit.blankLine "" "\u3000\r" (repeatedLine "0123456789ABCDEF" ++ "\n") (.inl rfl)
        (by decide)
    rwa [String.empty_append, String.empty_append] at hedit
  have hblanks : LayoutEdit ("\u3000\r\n" ++ (repeatedLine "0123456789ABCDEF" ++ "\n"))
      (relaidText ++ "\n") := by
    let after := "50," ++ String.join (List.replicate 4 "0123456789ABCDEF") ++ ",1.5\n"
    have hbefore : "\u3000\r\n" ++ (repeatedLine "0123456789ABCDEF" ++ "\n") =
        "\u3000\r\n7," ++ after := by
      decide +kernel
    have hafter : relaidText ++ "\n" = "\u3000\r\n7," ++ "\t" ++ after := by decide +kernel
    rw [hbefore, hafter]
    exact .blanks _ "\t" after (.inl (.inr ⟨"\u3000\r\n7", .inr rfl⟩)) (by decide) (by decide)
  exact .head hcase (.head hblank
    (.head hblanks (.single (.dropLastEnd relaidText "\n" (.inl rfl)))))

theorem decode_relaid_tidyText :
    Relaid tidyText relaidText ∧ ∃ p, decode tidyText = .ok p ∧ p.size = 1 ∧
      decode relaidText = .ok p := by
  have hread : (decode tidyText).toOption.map size = some 1 := by decide +kernel
  obtain ⟨p, hp, hsize⟩ := Option.map_eq_some_iff.1 hread
  rw [toOption_eq_some_iff] at hp
  exact ⟨relaid_tidyText, p, hp, hsize, (decode_relaid relaid_tidyText p).1 hp⟩

end VideoFingerprint.Fingerprint
