import VideoFingerprint.Decimal.Fixed
import VideoFingerprint.Decimal.Literal
import VideoFingerprint.Fingerprint.Basic
import VideoFingerprint.Hash.Hex
import VideoFingerprint.Text.Blank
import VideoFingerprint.Text.Integer

/-!
The text format of fingerprints: one line for each feature, `frame,quality,hash,time`, without
a header. Qualities are written with their shortest digits and times with three decimals. The
sampling interval and the duration are not written; a reader takes the typical gap and the last
time. Lines are checked one by one, so the line that is reported is the first one at fault, and
what has been read is a fingerprint.
-/

namespace VideoFingerprint.Fingerprint

/-- A numeric field of a line. -/
inductive Field
  | frame
  | quality
  | time
deriving DecidableEq, Repr

def Field.name : Field → String
  | .frame => "frame number"
  | .quality => "quality"
  | .time => "timestamp"

/-- Why a line is malformed. -/
inductive LineFault
  | fieldCount (found : Nat)
  | hashLength (found : Nat)
  | hashDigit (c : Char)
  | number (field : Field)
  | qualityRange (quality : Float)
  | negativeTime (time : Float)
  | order (previous current : Feature)

def LineFault.message : LineFault → String
  | .fieldCount found => "expected 4 comma separated fields, found " ++ toString found
  | .hashLength found => "hash must be 64 hex digits, found " ++ toString found
  | .hashDigit c => "invalid hex digit " ++ Text.quotedChar c ++ " in hash"
  | .number field => field.name ++ " is not a valid number"
  | .qualityRange quality => "quality " ++ plainText quality ++ " is outside 0..=100"
  | .negativeTime time => "timestamp " ++ plainText time ++ " is negative"
  | .order previous current =>
    "frame " ++ toString current.frame ++ " at " ++ plainText current.time ++
      "s does not follow frame "
      ++ toString previous.frame ++ " at " ++ plainText previous.time ++ "s"

/-- A malformed text: the number of its first bad line, counted from one, and what
is wrong there. -/
structure FormatError where
  line : Nat
  fault : LineFault

def FormatError.message (e : FormatError) : String :=
  "line " ++ toString e.line ++ ": " ++ e.fault.message

/-! ### Writing -/

def timeDecimals : Nat := 3

/-- The line of a feature, without its end. -/
def encodeLine (f : Feature) : String :=
  toString f.frame ++ "," ++ plainText f.quality ++ "," ++ f.hash.toHex ++ ","
    ++ Decimal.fixed timeDecimals f.time

def encode (p : Fingerprint) : String :=
  String.join (p.features.map fun f => encodeLine f ++ "\n")

/-! ### Reading one line -/

/-- A number of the format: a literal with at least one digit, which leaves out infinities and
values that are not numbers. -/
def readNumber (field : Field) (cs : List Char) : Except LineFault Float :=
  if cs.any Char.isDigit then
    match Decimal.literal? (String.ofList cs) with
    | some x => .ok x
    | none => .error (.number field)
  else .error (.number field)

def readFrame (cs : List Char) : Except LineFault Nat :=
  match Text.parseNatural Text.maxU64 (String.ofList cs) with
  | .ok n => .ok n
  | .error _ => .error (.number .frame)

def readQuality (cs : List Char) : Except LineFault Float :=
  match readNumber .quality cs with
  | .error e => .error e
  | .ok x => if Quality.inRange x then .ok x else .error (.qualityRange x)

def readHash (cs : List Char) : Except LineFault Hash :=
  match Hash.parse (String.ofList cs) with
  | .ok hash => .ok hash
  | .error (.length found) => .error (.hashLength found)
  | .error (.digit c) => .error (.hashDigit c)

def readTime (cs : List Char) : Except LineFault Float :=
  match readNumber .time cs with
  | .error e => .error e
  | .ok x =>
    if ¬ x.isFinite then .error (.number .time)
    else if x < 0 then .error (.negativeTime x)
    else .ok x

/-- The feature of a line. Fields are looked at from left to right. -/
def decodeLine (line : List Char) : Except LineFault Feature :=
  match (line.splitOn ',').map Text.trim with
  | [frame, quality, hash, time] => do
    let frame ← readFrame frame
    let quality ← readQuality quality
    let hash ← readHash hash
    let time ← readTime time
    return ⟨frame, time, hash, quality⟩
  | fields => .error (.fieldCount fields.length)

theorem inRange_of_readQuality {cs : List Char} {x : Float} (h : readQuality cs = .ok x) :
    Quality.inRange x = true := by
  unfold readQuality at h
  split at h
  · cases h
  · split at h
    · cases h; assumption
    · cases h

theorem timeInRange_of_readTime {cs : List Char} {x : Float} (h : readTime cs = .ok x) :
    Feature.timeInRange x = true := by
  unfold readTime at h
  split at h
  · cases h
  · split at h
    · cases h
    · split at h
      · cases h
      · cases h
        simp_all [Feature.timeInRange]

theorem inRange_of_decodeLine {line : List Char} {f : Feature} (h : decodeLine line = .ok f) :
    Quality.inRange f.quality = true ∧ Feature.timeInRange f.time = true := by
  unfold decodeLine at h
  split at h
  · rename_i frame quality hash time _
    cases hf : readFrame frame with
    | error e => simp [hf, bind, Except.bind] at h
    | ok n =>
      cases hq : readQuality quality with
      | error e => simp [hf, hq, bind, Except.bind] at h
      | ok q =>
        cases hh : readHash hash with
        | error e => simp [hf, hq, hh, bind, Except.bind] at h
        | ok v =>
          cases ht : readTime time with
          | error e => simp [hf, hq, hh, ht, bind, Except.bind] at h
          | ok t =>
            simp only [hf, hq, hh, ht, bind, Except.bind, pure, Except.pure,
              Except.ok.injEq] at h
            subst h
            exact ⟨inRange_of_readQuality hq, timeInRange_of_readTime ht⟩
  · cases h

/-! ### Reading a text -/

/-- The features of lines, the first of which has the number `line`; `previous` is the feature
before them. Blank lines are passed over. -/
def readLines (previous : Option Feature) :
    (line : Nat) → List (List Char) → Except FormatError (List Feature)
  | _, [] => .ok []
  | line, cs :: rest =>
    if cs.all Text.isBlank then readLines previous (line + 1) rest
    else match decodeLine cs with
      | .error fault => .error ⟨line, fault⟩
      | .ok f =>
        match previous.bind fun p => (f.orderFault? 0 p).map fun _ => p with
        | some p => .error ⟨line, .order p f⟩
        | none => (readLines (some f) (line + 1) rest).map (f :: ·)

theorem inRange_of_readLines {previous : Option Feature} {line : Nat} {ls : List (List Char)}
    {fs : List Feature} (h : readLines previous line ls = .ok fs) :
    ∀ f ∈ fs, Quality.inRange f.quality = true ∧ Feature.timeInRange f.time = true := by
  induction ls generalizing previous line fs with
  | nil =>
      simp only [readLines, Except.ok.injEq] at h
      simp [← h]
  | cons cs rest ih =>
      unfold readLines at h
      split at h
      · exact ih h
      · split at h
        · cases h
        · rename_i f hf
          split at h
          · cases h
          · cases hr : readLines (some f) (line + 1) rest with
            | error e => simp [hr, Except.map] at h
            | ok tail =>
                simp only [hr, Except.map, Except.ok.injEq] at h
                subst h
                intro g hg
                rcases List.mem_cons.1 hg with rfl | hg
                · exact inRange_of_decodeLine hf
                · exact ih hr g hg

theorem orderFault?_eq_none_congr (i j : Nat) {previous f : Feature}
    (h : f.orderFault? i previous = none) : f.orderFault? j previous = none := by
  rw [Feature.orderFault?_eq_none_iff] at h ⊢
  exact h

theorem orderFaultAfter?_of_readLines {previous : Feature} {line : Nat} {ls : List (List Char)}
    {fs : List Feature} (h : readLines (some previous) line ls = .ok fs) (index : Nat) :
    orderFaultAfter? index previous fs = none := by
  induction ls generalizing previous line fs index with
  | nil =>
      simp only [readLines, Except.ok.injEq] at h
      simp [← h, orderFaultAfter?]
  | cons cs rest ih =>
      unfold readLines at h
      split at h
      · exact ih h index
      · split at h
        · cases h
        · rename_i f hf
          split at h
          · cases h
          · rename_i hnone
            cases hr : readLines (some f) (line + 1) rest with
            | error e => simp [hr, Except.map] at h
            | ok tail =>
                simp only [hr, Except.map, Except.ok.injEq] at h
                subst h
                have horder : f.orderFault? 0 previous = none := by
                  simpa using hnone
                simp [orderFaultAfter?, orderFault?_eq_none_congr 0 index horder, ih hr]

theorem orderFault?_of_readLines {line : Nat} {ls : List (List Char)}
    {fs : List Feature} (h : readLines none line ls = .ok fs) : orderFault? fs = none := by
  induction ls generalizing line fs with
  | nil =>
      simp only [readLines, Except.ok.injEq] at h
      simp [← h, orderFault?]
  | cons cs rest ih =>
      unfold readLines at h
      split at h
      · exact ih h
      · split at h
        · cases h
        · rename_i f hf
          simp only [Option.bind_none] at h
          cases hr : readLines (some f) (line + 1) rest with
          | error e => simp [hr, Except.map] at h
          | ok tail =>
              simp only [hr, Except.map, Except.ok.injEq] at h
              subst h
              exact orderFaultAfter?_of_readLines hr 1

theorem valid_of_readLines {line : Nat} {ls : List (List Char)} {fs : List Feature}
    (h : readLines none line ls = .ok fs) : firstFault? fs = none := by
  rw [firstFault?, Option.or_eq_none_iff]
  exact ⟨rangeFault?_eq_none_iff.2 (inRange_of_readLines h), orderFault?_of_readLines h⟩

def gaps : List Feature → List Float
  | f :: g :: fs => (g.time - f.time) :: gaps (g :: fs)
  | _ => []

/-- The middle one of the sorted gaps, rounded to the decimals of a written time;
zero without gaps. -/
def typicalInterval (fs : List Feature) : Float :=
  let sorted := (gaps fs).mergeSort Binary64.sortsBefore
  match sorted[sorted.length / 2]? with
  | none => 0
  | some gap => Binary64.roundHalfAway (gap * 1000) / 1000

/-- The time of the last feature; zero without features. -/
def lastTime (fs : List Feature) : Float := (fs.getLast?.map Feature.time).getD 0

def decode (text : String) : Except FormatError Fingerprint :=
  match h : readLines none 1 (Text.lines text.toList) with
  | .error e => .error e
  | .ok fs => .ok ⟨fs, typicalInterval fs, lastTime fs, valid_of_readLines h⟩

/-! ### Files -/

/-- Why a fingerprint file could not be read or written; the reason of an input or output
error is its text. -/
inductive FileError
  | io (reason : String)
  | format (error : FormatError)

def FileError.message : FileError → String
  | .io reason => "I/O error: " ++ reason
  | .format error => "malformed fingerprint: " ++ error.message

/-- The reason why bytes that are no UTF-8 cannot be read as text. -/
def notUtf8 : String := "stream did not contain valid UTF-8"

def decodeBytes (bytes : ByteArray) : Except FileError Fingerprint :=
  match String.fromUTF8? bytes with
  | none => .error (.io notUtf8)
  | some text =>
    match decode text with
    | .ok p => .ok p
    | .error e => .error (.format e)

end VideoFingerprint.Fingerprint
