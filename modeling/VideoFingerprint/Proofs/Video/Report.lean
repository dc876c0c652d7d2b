import VideoFingerprint.Proofs.Number.Whole
import VideoFingerprint.Proofs.Outcome
import VideoFingerprint.Video.Probe

/-!
What a report says about a video. Every text is either no report, or a report that says
something wrong, or one that says exactly one thing: how long the video is, how large its file
is, and how its first video stream is shown. Only one condition ends reading altogether, a
length of `2 ^ 64` seconds or more, which the text of a duration can state in digits, with an
exponent or by the word for infinity.
-/

namespace VideoFingerprint

open Binary64 Outcome

/-! ### Lengths of time -/

namespace Duration

def tooLong : Float := 18446744073709551616

theorem ofNanos?_eq_none_iff {total : ℕ} :
    ofNanos? total = none ↔ UInt64.size * nanosPerSecond ≤ total := by
  rw [ofNanos?, ← Nat.le_div_iff_mul_le (by decide)]
  split
  · rename_i h
    exact iff_of_false (Option.some_ne_none _) h.not_ge
  · rename_i h
    exact iff_of_true rfl (not_lt.1 h)

/-- The double before the shortest time that is too long is shorter by 2048 seconds, so
rounding to nanoseconds does not reach that time. -/
theorem magnitude_lt_tooLong {x : Float} (h : magnitude x < magnitude tooLong) :
    magnitude x ≤ (UInt64.size - 2048) * unit := by
  have hbefore : patternMagnitude (pattern tooLong - 1) = (UInt64.size - 2048) * unit := by
    decide +kernel
  have hlt : pattern x < pattern tooLong := strictMono_patternMagnitude.lt_iff_lt.1 h
  rw [← hbefore]
  exact strictMono_patternMagnitude.monotone (Nat.le_sub_one_of_lt hlt)

theorem magnitude_tooLong : magnitude tooLong = UInt64.size * unit := by decide +kernel

/-- Rounding to nanoseconds leads neither to the shortest time that is too long
nor away from it. -/
theorem ofNanos?_divHalfEven_eq_none_iff {x : Float} :
    ofNanos? (divHalfEven (magnitude x * nanosPerSecond) unit) = none ↔
      magnitude tooLong ≤ magnitude x := by
  have hround := rounds_divHalfEven (magnitude x * nanosPerSecond) unit_pos
  have hexact (seconds : ℕ) :
      Rounds id (seconds * unit * nanosPerSecond) unit (seconds * nanosPerSecond) := by
    rw [Nat.mul_right_comm]
    exact .refl strictMono_id unit_pos _
  rw [ofNanos?_eq_none_iff]
  constructor
  · intro hlong
    by_contra hbefore
    have hshort := magnitude_lt_tooLong (not_le.1 hbefore)
    have hbound :=
      hround.index_le strictMono_id (hexact (UInt64.size - 2048)) unit_pos unit_pos
      (Nat.mul_le_mul_right unit (Nat.mul_le_mul_right nanosPerSecond hshort))
    have hgap : (UInt64.size - 2048) * nanosPerSecond < UInt64.size * nanosPerSecond := by
      decide
    omega
  · intro hle
    rw [magnitude_tooLong] at hle
    apply (hexact UInt64.size).index_le strictMono_id hround unit_pos unit_pos
    exact Nat.mul_le_mul_right unit (Nat.mul_le_mul_right nanosPerSecond hle)

/-- A length of time fits as long as it is below `2 ^ 64` seconds. -/
theorem ofSeconds?_eq_none_iff {x : Float} : ofSeconds? x = none ↔ tooLong ≤ x := by
  have hlimit : 0 < tooLong ∧ tooLong.isFinite = true ∧ isNegative tooLong = false ∧
      pattern tooLong < infinityPattern := by decide +kernel
  obtain ⟨hpos, hfinite, hsign, hbelow⟩ := hlimit
  rw [ofSeconds?]
  split
  · rename_i hnot
    exact iff_of_false (Option.some_ne_none _) fun hle => hnot (pos_of_le hpos hle)
  · rename_i hx₀
    rw [not_not] at hx₀
    have hx := (not_isNaN_of_lt hx₀).2
    have hpositive := isNegative_of_pos hx₀
    split
    · rename_i hinf
      refine iff_of_true rfl ((le_iff (isNaN_eq_false hfinite) hx).2 ?_)
      rw [signedPattern, signedPattern, hsign, hpositive, isInf_iff.1 hinf]
      exact Int.ofNat_le.2 hbelow.le
    · rename_i hinf
      have hx' : x.isFinite = true := by
        rw [isInf_iff] at hinf
        rw [Bool.eq_false_iff, ne_eq, isNaN_iff] at hx
        rw [isFinite_iff]
        omega
      rw [ofNanos?_divHalfEven_eq_none_iff, le_iff_magnitude_le hfinite hx' hsign hpositive]

end Duration

namespace Probe

open Json

/-! ### Streams -/

/-- A side of a picture as a stream states it. A missing side counts as zero, and so does one
beyond 32 bits. -/
def IsSide (stated : Option ℕ) (side : ℕ) : Prop :=
  (stated = some side ∧ side < UInt32.size) ∨ side = 0 ∧ ∀ n ∈ stated, UInt32.size ≤ n

theorem isSide_iff {stated : Option ℕ} {side : ℕ} :
    IsSide stated side ↔ Stream.side stated = side := by
  cases stated with
  | none => simp [IsSide, Stream.side, eq_comm]
  | some n =>
      rw [IsSide, Stream.side, Option.filter_some]
      by_cases hn : n < UInt32.size
      · rw [if_pos (decide_eq_true hn), Option.getD_some]
        simp only [Option.some_inj, Option.mem_some, forall_eq']
        omega
      · rw [if_neg (by simpa using hn), Option.getD_none]
        simp only [Option.some_inj, Option.mem_some, forall_eq']
        omega

theorem IsSide.lt {stated : Option ℕ} {side : ℕ} (h : IsSide stated side) :
    side < UInt32.size := by
  rcases h with ⟨-, hlt⟩ | ⟨rfl, -⟩
  · exact hlt
  · decide

/-- The degrees that a rotation writes, as a number or as a text. -/
inductive Rotation.Writes : Rotation → ℤ → Prop
  | degrees (n : ℤ) : Writes (.degrees n) n
  | text {s : String} {n : ℤ} : Text.int64? (Text.trimmed s) = some n → Writes (.text s) n

theorem Rotation.degrees?_eq_ok_iff {r : Rotation} {n : ℤ} :
    r.degrees? = .ok n ↔ r.Writes n := by
  constructor
  · intro h
    cases r with
    | degrees m =>
        cases h
        exact .degrees _
    | text s =>
        rw [degrees?] at h
        split at h
        · rename_i hm
          cases h
          exact .text hm
        · cases h
  · rintro (n | hn)
    · rfl
    · rw [degrees?, hn]

namespace Stream

variable {s : Stream} {n : ℤ} {width height : ℕ}

/-- The rotation of a stream is the first that its additional data give. Without one
it is upright. -/
inductive Turned (s : Stream) : ℤ → Prop
  | upright : (∀ r ∈ s.rotations, r = none) → Turned s 0
  | first {before after : List (Option Rotation)} {r : Rotation} {n : ℤ} :
      s.rotations = before ++ some r :: after → (∀ r ∈ before, r = none) → r.Writes n →
        Turned s n

theorem rotation_eq_ok_iff : s.rotation = .ok n ↔ s.Turned n := by
  rw [rotation]
  constructor
  · intro h
    split at h
    · rename_i r hfirst
      obtain ⟨before, given, after, hsplit, hgiven, hbefore⟩ :=
        List.findSome?_eq_some_iff.1 hfirst
      rw [id] at hgiven
      subst hgiven
      exact .first hsplit hbefore (Rotation.degrees?_eq_ok_iff.1 h)
    · rename_i hnone
      cases h
      exact .upright (List.findSome?_eq_none_iff.1 hnone)
  · rintro (hnone | ⟨hsplit, hbefore, hwrites⟩)
    · have hfirst : s.rotations.findSome? id = none := List.findSome?_eq_none_iff.2 hnone
      rw [hfirst]
    · have hfirst : s.rotations.findSome? id = some _ :=
        List.findSome?_eq_some_iff.2 ⟨_, _, _, hsplit, rfl, hbefore⟩
      rw [hfirst]
      exact Rotation.degrees?_eq_ok_iff.2 hwrites

/-- The size in which a stream is shown. Turned by an odd number of right angles, the width and
the height that it states change places; turned by an even number they do not; turned by
anything else it is not shown. -/
inductive Shows (s : Stream) : ℕ → ℕ → Prop
  | upright {k : ℤ} {width height : ℕ} :
  s.Turned (90 * (2 * k)) → IsSide s.width width → IsSide s.height height →
      Shows s width height
  | swapped {k : ℤ} {width height : ℕ} : s.Turned (90 * (2 * k + 1)) → IsSide s.width width →
      IsSide s.height height → Shows s height width

theorem shownResolution_eq_ok_iff :
    s.shownResolution = .ok (width, height) ↔ s.Shows width height := by
  have hdegrees : s.shownResolution = .ok (width, height) ↔ ∃ n, s.Turned n ∧
      (if n % 180 = 0 then .ok (side s.width, side s.height)
        else if n % 180 = 90 then .ok (side s.height, side s.width)
        else .error (.rotation (toString n)) : Except InfoError (ℕ × ℕ)) =
          .ok (width, height) := by
    simp only [← rotation_eq_ok_iff]
    rw [shownResolution]
    cases s.rotation <;> simp
  rw [hdegrees]
  constructor
  · rintro ⟨n, hturned, hsize⟩
    split at hsize
    · rename_i hupright
      obtain ⟨hwidth, hheight⟩ := Prod.mk.inj (Except.ok.inj hsize)
      obtain ⟨k, rfl⟩ : ∃ k, n = 90 * (2 * k) := ⟨n / 180, by omega⟩
      exact .upright hturned (isSide_iff.2 hwidth) (isSide_iff.2 hheight)
    · split at hsize
      · rename_i hswapped
        obtain ⟨hheight, hwidth⟩ := Prod.mk.inj (Except.ok.inj hsize)
        obtain ⟨k, rfl⟩ : ∃ k, n = 90 * (2 * k + 1) := ⟨n / 180, by omega⟩
        exact .swapped hturned (isSide_iff.2 hwidth) (isSide_iff.2 hheight)
      · cases hsize
  · rintro (⟨hturned, hwidth, hheight⟩ | ⟨hturned, hwidth, hheight⟩)
    · refine ⟨_, hturned, ?_⟩
      rw [if_pos (by omega), isSide_iff.1 hwidth, isSide_iff.1 hheight]
    · refine ⟨_, hturned, ?_⟩
      rw [if_neg (by omega), if_pos (by omega), isSide_iff.1 hwidth, isSide_iff.1 hheight]

theorem Shows.lt (h : s.Shows width height) : width < UInt32.size ∧ height < UInt32.size := by
  rcases h with ⟨-, hwidth, hheight⟩ | ⟨-, hwidth, hheight⟩
  · exact ⟨hwidth.lt, hheight.lt⟩
  · exact ⟨hheight.lt, hwidth.lt⟩

end Stream

theorem rate?_spec {text : String} {rate : Float} (h : rate? text = some rate) :
    rate.isFinite = true ∧ 0 < rate := by
  unfold rate? at h
  dsimp only at h
  split at h
  · cases h
  · obtain ⟨num, -, h⟩ := Option.bind_eq_some_iff.1 h
    obtain ⟨den, -, h⟩ := Option.bind_eq_some_iff.1 h
    split at h
    · rename_i husable
      cases h
      exact husable
    · cases h

theorem Stream.frameRate_spec {s : Stream} {rate : Float} (h : rate ∈ s.frameRate) :
    rate.isFinite = true ∧ 0 < rate := by
  obtain ⟨stated, -, hstated⟩ := List.exists_of_findSome?_eq_some h
  obtain ⟨text, -, htext⟩ := Option.bind_eq_some_iff.1 hstated
  exact rate?_spec htext

/-! ### Reports -/

namespace Report

variable {r : Report} {info : VideoInfo}

def FirstVideo (r : Report) (s : Stream) : Prop :=
  ∃ before after, r.streams = before ++ s :: after ∧ s.kind = some "video" ∧
    ∀ t ∈ before, t.kind ≠ some "video"

/-- The picture that a report describes: that of the first video stream, or none. -/
inductive Pictures (r : Report) (info : VideoInfo) : Prop
  | none : (∀ s ∈ r.streams, s.kind ≠ some "video") → info.width = 0 → info.height = 0 →
    info.frameRate = none →
      Pictures r info
  | video {s : Stream} : r.FirstVideo s → s.Shows info.width info.height →
    info.frameRate = s.frameRate →
      Pictures r info

/-- What a report says: each text states a number, and the first video stream can be shown. -/
structure Says (r : Report) (info : VideoInfo) : Prop where
  duration : r.duration.elim (info.duration = .zero) fun text =>
    ∃ seconds, Decimal.parseLiteral (Text.trimmed text) = .ok seconds ∧
      Duration.ofSeconds? seconds = some info.duration
  size : r.size.elim (info.fileSize = 0) fun text =>
    Text.parseNatural Text.maxU64 (Text.trimmed text) = .ok info.fileSize
  pictures : r.Pictures info

/-- The report states a duration that is too long to be held. -/
def Overlong (r : Report) : Prop := ∃ text seconds, r.duration = some text ∧
  Decimal.parseLiteral (Text.trimmed text) = .ok seconds ∧ Duration.tooLong ≤ seconds

theorem find?_isVideo_eq_some_iff {s : Stream} :
    r.streams.find? Stream.isVideo = some s ↔ r.FirstVideo s := by
  rw [List.find?_eq_some_iff_append, FirstVideo]
  simp only [Stream.isVideo, decide_eq_true_eq, Bool.not_eq_true', decide_eq_false_iff_not]
  constructor
  · rintro ⟨hvideo, before, after, hsplit, hbefore⟩
    exact ⟨before, after, hsplit, hvideo, hbefore⟩
  · rintro ⟨before, after, hsplit, hvideo, hbefore⟩
    exact ⟨hvideo, before, after, hsplit, hbefore⟩

theorem find?_isVideo_eq_none_iff :
    r.streams.find? Stream.isVideo = none ↔ ∀ s ∈ r.streams, s.kind ≠ some "video" := by
  simp only [List.find?_eq_none, Stream.isVideo, decide_eq_true_eq, ne_eq]

/-- The duration as it is read, if a report states one. -/
def statedDuration (r : Report) : Attempt InfoError Duration :=
  r.duration.elim (.ok (.ok .zero)) readDuration

theorem statedDuration_eq_error_iff {abort : Abort} :
    r.statedDuration = .error abort ↔ abort = .durationTooLong ∧ r.Overlong := by
  rw [statedDuration, Overlong]
  cases r.duration with
  | none => simp
  | some text =>
      rw [Option.elim_some, readDuration]
      simp only [← Duration.ofSeconds?_eq_none_iff, Option.some_inj, exists_and_left,
        exists_eq_left']
      cases Decimal.parseLiteral (Text.trimmed text) with
      | error e => simp
      | ok seconds =>
          cases hseconds : Duration.ofSeconds? seconds <;> simp [hseconds, @eq_comm _ abort]

theorem statedDuration_eq_ok_iff {d : Duration} :
    r.statedDuration = .ok (.ok d) ↔ r.duration.elim (d = .zero)
    fun text => ∃ seconds, Decimal.parseLiteral (Text.trimmed text) = .ok seconds ∧
      Duration.ofSeconds? seconds = some d := by
  rw [statedDuration]
  cases r.duration with
  | none => simp [eq_comm]
  | some text =>
      rw [Option.elim_some, Option.elim_some, readDuration]
      cases Decimal.parseLiteral (Text.trimmed text) with
      | error e => simp
      | ok seconds => cases hseconds : Duration.ofSeconds? seconds <;> simp [hseconds]

theorem statedSize_eq_ok_iff {n : ℕ} :
    r.size.elim (.ok 0) readSize = .ok n ↔ r.size.elim (n = 0)
    fun text => Text.parseNatural Text.maxU64 (Text.trimmed text) = .ok n := by
  cases r.size with
  | none => simp [eq_comm]
  | some text =>
      rw [Option.elim_some, Option.elim_some, readSize]
      cases Text.parseNatural Text.maxU64 (Text.trimmed text) <;> simp [Except.mapError]

theorem info_eq_error_iff {abort : Abort} :
    r.info = .error abort ↔ abort = .durationTooLong ∧ r.Overlong := by
  rw [← statedDuration_eq_error_iff, info, ← statedDuration]
  rcases r.statedDuration with abort' | e | d <;> simp

/-- The properties of a video whose duration and file size are known. -/
def shown (r : Report) (duration : Duration) (fileSize : ℕ) : Except InfoError VideoInfo :=
  match r.streams.find? Stream.isVideo with
  | none => .ok ⟨duration, fileSize, 0, 0, none⟩
  | some s => s.shownResolution.map fun size =>
      ⟨duration, fileSize, size.1, size.2, s.frameRate⟩

theorem shown_eq_ok_iff {d : Duration} {n : ℕ} :
    r.shown d n = .ok info ↔ info.duration = d ∧ info.fileSize = n ∧ r.Pictures info := by
  obtain ⟨duration, fileSize, width, height, rate⟩ := info
  rw [shown]
  cases hfirst : r.streams.find? Stream.isVideo with
  | none =>
      have hnone := find?_isVideo_eq_none_iff.1 hfirst
      constructor
      · rintro ⟨⟩
        exact ⟨rfl, rfl, .none hnone rfl rfl rfl⟩
      · rintro ⟨rfl, rfl, ⟨-, rfl, rfl, rfl⟩ | ⟨hvideo, -, -⟩⟩
        · rfl
        · rw [find?_isVideo_eq_some_iff.2 hvideo] at hfirst
          cases hfirst
  | some s =>
      constructor
      · intro h
        obtain ⟨⟨w, h'⟩, hsize, heq⟩ := map_eq_ok_iff.1 h
        cases heq
        exact ⟨rfl, rfl, .video (find?_isVideo_eq_some_iff.1 hfirst)
          (Stream.shownResolution_eq_ok_iff.1 hsize) rfl⟩
      · rintro ⟨rfl, rfl, ⟨hnone, -, -, -⟩ | ⟨hvideo, hshows, hrate⟩⟩
        · rw [find?_isVideo_eq_none_iff.2 hnone] at hfirst
          cases hfirst
        · rw [find?_isVideo_eq_some_iff.2 hvideo] at hfirst
          cases hfirst
          exact map_eq_ok_iff.2 ⟨_, Stream.shownResolution_eq_ok_iff.2 hshows, by rw [← hrate]⟩

theorem info_eq_ok_iff : r.info = .ok (.ok info) ↔ r.Says info := by
  have hinfo : r.info = .ok (.ok info) ↔ ∃ d, r.statedDuration = .ok (.ok d) ∧
      ∃ n, r.size.elim (.ok 0) readSize = .ok n ∧ r.shown d n = .ok info := by
    rw [Report.info, ← statedDuration]
    rcases r.statedDuration with abort | e | d
    · simp
    · simp
    · simp only [Except.ok.injEq, exists_eq_left', bind_eq_ok_iff]
      rfl
  rw [hinfo]
  constructor
  · rintro ⟨d, hd, n, hn, hshown⟩
    obtain ⟨rfl, rfl, hpictures⟩ := shown_eq_ok_iff.1 hshown
    exact ⟨statedDuration_eq_ok_iff.1 hd, statedSize_eq_ok_iff.1 hn, hpictures⟩
  · intro h
    exact ⟨_, statedDuration_eq_ok_iff.2 h.duration, _, statedSize_eq_ok_iff.2 h.size,
      shown_eq_ok_iff.2 ⟨rfl, rfl, h.pictures⟩⟩

theorem Says.frameRate_spec (h : r.Says info) {rate : Float} (hrate : rate ∈ info.frameRate) :
    rate.isFinite = true ∧ 0 < rate := by
  rcases h.pictures with ⟨-, -, -, hnone⟩ | ⟨-, -, heq⟩
  · rw [hnone] at hrate
    cases hrate
  · exact Stream.frameRate_spec (heq ▸ hrate)

theorem Says.sides_lt (h : r.Says info) :
    info.width < UInt32.size ∧ info.height < UInt32.size := by
  rcases h.pictures with ⟨-, hwidth, hheight, -⟩ | ⟨-, hshows, -⟩
  · rw [hwidth, hheight]
    decide
  · exact hshows.lt

end Report

/-! ### Texts -/

variable {explain : String → String}

theorem infoOfText_eq_error_iff {text : String} {abort : Abort} :
    infoOfText explain text = .error abort ↔
      abort = .durationTooLong ∧
        ∃ r, readDocument reportRecord.reader text = .ok r ∧ r.Overlong := by
  rw [infoOfText]
  cases readDocument reportRecord.reader text with
  | error e => simp
  | ok r => simp [Report.info_eq_error_iff]

theorem infoOfText_eq_ok_iff {text : String} {info : VideoInfo} :
    infoOfText explain text = .ok (.ok info) ↔
      ∃ r, readDocument reportRecord.reader text = .ok r ∧ r.Says info := by
  rw [infoOfText]
  cases readDocument reportRecord.reader text with
  | error e => simp
  | ok r => simp [Report.info_eq_ok_iff]

/-- Reading a text as a report is given up exactly if it states a duration of `2 ^ 64` seconds
or more. In all other cases there is an error, or the properties that the report says the video
has; in particular its size is that of the first video stream, with the sides swapped exactly
if the stream is turned by an odd number of right angles. A frame rate, if there is one, is a
positive number. -/
theorem infoOfText_outcome (explain : String → String) (text : String) :
    (∀ abort, infoOfText explain text = .error abort ↔
      abort = .durationTooLong ∧
        ∃ r, readDocument reportRecord.reader text = .ok r ∧ r.Overlong) ∧
    (∀ info, infoOfText explain text = .ok (.ok info) ↔
      ∃ r, readDocument reportRecord.reader text = .ok r ∧ r.Says info) ∧
    ∀ info, infoOfText explain text = .ok (.ok info) →
      ∀ rate ∈ info.frameRate, rate.isFinite = true ∧ 0 < rate := by
  refine ⟨fun _ => infoOfText_eq_error_iff, fun _ => infoOfText_eq_ok_iff,
    fun info hinfo rate hrate => ?_⟩
  obtain ⟨r, -, hreport⟩ := infoOfText_eq_ok_iff.1 hinfo
  exact hreport.frameRate_spec hrate

def turnedReport : String :=
  "\x7b\"streams\": [\x7b\"codec_type\": \"audio\"\x7d, \x7b\"codec_type\": \"video\", " ++
    "\"width\": 1920, \"height\": 1080, \"avg_frame_rate\": \"25/1\", " ++
    "\"side_data_list\": [\x7b\"rotation\": \"-90\"\x7d]\x7d]\x7d"

theorem infoOfText_outcome_turned :
    ∃ r info, readDocument reportRecord.reader turnedReport = .ok r ∧ r.Says info ∧
      info.width = 1080 ∧ info.height = 1920 ∧
      ∃ rate ∈ info.frameRate, rate.isFinite = true ∧ 0 < rate := by
  have hturned : ((infoOfText id turnedReport).toOption.bind Except.toOption).any (fun info =>
      info.width = 1080 ∧ info.height = 1920 ∧ info.frameRate.isSome = true) =
        true := by decide +kernel
  obtain ⟨info, hinfo, htest⟩ := exists_ok_of_any hturned
  obtain ⟨hwidth, hheight, hrate⟩ := of_decide_eq_true htest
  obtain ⟨-, hread, hpositive⟩ := infoOfText_outcome id turnedReport
  obtain ⟨r, hr, hr'⟩ := (hread info).1 hinfo
  obtain ⟨rate, hrate'⟩ := Option.isSome_iff_exists.1 hrate
  exact ⟨r, info, hr, hr', hwidth, hheight, rate, hrate', hpositive info hinfo rate hrate'⟩

def infiniteReport : String := "\x7b\"format\": \x7b\"duration\": \"inf\"\x7d\x7d"

/-- Not every text is read or refused with an error. -/
theorem infoOfText_infinite : infoOfText id infiniteReport = .error .durationTooLong := by
  have hnone : (infoOfText id infiniteReport).toOption.isNone = true := by decide +kernel
  cases hread : infoOfText id infiniteReport with
  | error abort => rw [(infoOfText_eq_error_iff.1 hread).1]
  | ok answer =>
      rw [hread] at hnone
      cases hnone

end Probe

end VideoFingerprint
