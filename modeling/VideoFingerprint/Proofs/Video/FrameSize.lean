import VideoFingerprint.Proofs.Video.Framing
import VideoFingerprint.Proofs.Video.Report
import VideoFingerprint.Proofs.Video.Scaling
import VideoFingerprint.Video.Opening

/-!
The size of a frame. Decoding is started only if the number of bytes in a frame is neither zero
nor above the largest one that is allowed. The sides of frames have 32 bits, so the bytes of a
gray frame can be counted with 64 bits. Those of a frame in color cannot if there are very many
pixels, which takes a video whose frames are not scaled down, or hardly; then the program gives
up.
-/

namespace VideoFingerprint

namespace StreamFormat

variable {f : StreamFormat}

theorem frameBytes_eq (f : StreamFormat) :
    f.frameBytes = f.width * f.height * if f.grayscale then 1 else 3 := by
  rw [frameBytes, channels]
  split <;> rfl

theorem frameBytes_eq_zero_iff : f.frameBytes = 0 ↔ f.width = 0 ∨ f.height = 0 := by
  rw [frameBytes_eq, Nat.mul_eq_zero, Nat.mul_eq_zero]
  exact or_iff_left (by split <;> decide)

/-- Only the bytes of colors can be too many. -/
theorem grayscale_eq_false (hwidth : f.width < UInt32.size) (hheight : f.height < UInt32.size)
    (hlarge : UInt64.size ≤ f.frameBytes) : f.grayscale = false := by
  by_contra hgray
  have hpixels : f.width * f.height < UInt64.size := Nat.mul_lt_mul'' hwidth hheight
  rw [frameBytes_eq, if_pos (by simpa using hgray), Nat.mul_one] at hlarge
  exact hlarge.not_gt hpixels

end StreamFormat

namespace DecodeRequest

open StreamFormat

variable {σ : Type} {explain : String → String} {run : ToolRunner (StateM σ)}
  {q : DecodeRequest}
  {path : FilePath} {info : VideoInfo} {x : σ}

/-! ### The format -/

/-- The format of the frames that are asked for, usable or not. -/
def requested (q : DecodeRequest) (info : VideoInfo) : StreamFormat :=
  let size := outputSize q.maxDimension info.width info.height
  ⟨size.1, size.2, q.grayscale, q.frameRate info⟩

theorem format_eq (q : DecodeRequest) (info : VideoInfo) :
    q.format info =
      if (q.requested info).frameBytes = 0 then .ok (.error .noResolution)
      else if UInt64.size ≤ (q.requested info).frameBytes then .error .frameTooLarge
      else if maxFrameBytes < (q.requested info).frameBytes then .ok (.error .noResolution)
      else .ok (.ok (q.requested info)) := by
  rw [if_congr frameBytes_eq_zero_iff rfl rfl]
  rfl

theorem format_of_usable (hpos : 0 < (q.requested info).frameBytes)
    (hle : (q.requested info).frameBytes ≤ maxFrameBytes) :
    q.format info = .ok (.ok (q.requested info)) := by
  have hcounted : (q.requested info).frameBytes < UInt64.size :=
    hle.trans_lt (by decide : maxFrameBytes < UInt64.size)
  rw [format_eq, if_neg hpos.ne', if_neg hcounted.not_ge, if_neg hle.not_gt]

theorem format_of_unusable (hlt : (q.requested info).frameBytes < UInt64.size)
    (h : (q.requested info).frameBytes = 0 ∨ maxFrameBytes < (q.requested info).frameBytes) :
    q.format info = .ok (.error .noResolution) := by
  rw [format_eq]
  split
  · rfl
  · rename_i hne
    rw [if_neg hlt.not_ge, if_pos (h.resolve_left hne)]

theorem format_of_large (hlarge : UInt64.size ≤ (q.requested info).frameBytes) :
    q.format info = .error .frameTooLarge := by
  have hpos : 0 < (q.requested info).frameBytes := Nat.zero_lt_of_lt hlarge
  rw [format_eq, if_neg hpos.ne', if_pos hlarge]

/-- Too many bytes for 64 bits take sides that are limited to hardly less than 32 bits, or not
limited. -/
theorem limit_large (hwidth : info.width < UInt32.size) (hheight : info.height < UInt32.size)
    (hlarge : UInt64.size ≤ (q.requested info).frameBytes) {limit : ℕ}
    (hlimit : limit ∈ q.maxDimension) : UInt64.size ≤ 3 * (limit + 1) ^ 2 := by
  obtain ⟨-, -, hsides⟩ := outputSize_sides_lt q.maxDimension hwidth hheight
  obtain ⟨hfirst, hsecond⟩ := hsides limit hlimit
  have hsize : (q.requested info).frameBytes ≤ max 2 (limit + 1) * max 2 (limit + 1) * 3 := by
    rw [frameBytes_eq]
    exact Nat.mul_le_mul (Nat.mul_le_mul hfirst hsecond) (by split <;> decide)
  rcases le_total 2 (limit + 1) with hle | hle
  · rw [max_eq_right hle] at hsize
    calc
      UInt64.size ≤ (q.requested info).frameBytes := hlarge
      _ ≤ (limit + 1) * (limit + 1) * 3 := hsize
      _ = 3 * (limit + 1) ^ 2 := by ring
  · rw [max_eq_left hle] at hsize
    exact absurd (hlarge.trans hsize) (by decide)

/-! ### Starting -/

def opened (q : DecodeRequest) (f : StreamFormat) (info : VideoInfo) :
    Except StartFailure ToolRun → Attempt ToolError (FrameStream × VideoInfo)
  | .error failure => .ok (.error (.ofStart failure))
  | .ok r => (q.stream f r).map fun s => .ok (s, info)

theorem format_of_opened {f : StreamFormat} {answer : Except StartFailure ToolRun}
    {s : FrameStream} {info' : VideoInfo} (h : q.opened f info answer = .ok (.ok (s, info'))) :
    s.format = f := by
  rcases answer with failure | r
  · cases h
  · obtain ⟨s', hs', heq⟩ := Outcome.map_eq_ok_iff.1 h
    cases heq
    rw [stream] at hs'
    split at hs' <;> cases hs'
    rfl

theorem fst_run_bind {α β : Type} (a : StateM σ α) (f : α → StateM σ β) :
    ((a >>= f).run x).1 = ((f (a.run x).1).run (a.run x).2).1 := rfl

/-- The properties of a probed video are those of some report. -/
theorem exists_infoOfText_of_probe (h : ((probe explain run path).run x).1 = .ok (.ok info)) :
    ∃ text, Probe.infoOfText explain text = .ok (.ok info) := by
  rw [probe, fst_run_bind] at h
  generalize ((run .ffprobe (probeArguments path)).run x).1 = answer at h
  rcases answer with failure | r
  · cases h
  · dsimp only at h
    rcases hr : r.text with e | text
    · rw [hr] at h
      cases h
    · rw [hr] at h
      have h :
          (Probe.infoOfText explain text).map (fun given => given.mapError ToolError.info) =
        .ok (.ok info) := h
      obtain ⟨given, hgiven, hinfo⟩ := Outcome.map_eq_ok_iff.1 h
      rcases given with e | given
      · cases hinfo
      · cases hinfo
        exact ⟨text, hgiven⟩

theorem fst_start_of_probe (h : ((probe explain run q.path).run x).1 = .ok (.ok info)) :
    ((q.start explain run).run x).1 = match q.format info with
      | .error abort => .error abort
      | .ok (.error e) => .ok (.error e)
      | .ok (.ok f) => q.opened f info
          ((run .ffmpeg (q.decodeArguments f)).run
            ((probe explain run q.path).run x).2).1 := by
  rw [start, fst_run_bind, h]
  dsimp only
  rcases q.format info with abort | e | f
  · rfl
  · rfl
  · dsimp only
    rw [fst_run_bind]
    rcases ((run .ffmpeg (q.decodeArguments f)).run
      ((probe explain run q.path).run x).2).1 with
      failure | r <;> rfl

/-- The sides that a report gives have 32 bits. -/
theorem sides_lt_of_probe (h : ((probe explain run path).run x).1 = .ok (.ok info)) :
    info.width < UInt32.size ∧ info.height < UInt32.size := by
  obtain ⟨text, htext⟩ := exists_infoOfText_of_probe h
  obtain ⟨r, -, hreport⟩ := Probe.infoOfText_eq_ok_iff.1 htext
  exact hreport.sides_lt

/-- What starting to decode a probed video leads to, by the number of bytes in a frame. As long
as 64 bits can count them, there is no usable resolution if they are none or too many, and
otherwise decoding is started, and each full buffer makes a picture of the size that was asked
for. Beyond 64 bits, which happens only in color and only if the sides are not limited or
hardly, the program gives up. So whatever stream is started has frames of the right size. -/
theorem start_frameBytes (hprobe : ((probe explain run q.path).run x).1 = .ok (.ok info)) :
    let f := q.requested info
    let answer :=
      ((run .ffmpeg (q.decodeArguments f)).run ((probe explain run q.path).run x).2).1
    let result := ((q.start explain run).run x).1
    f.frameBytes = (f.width * f.height * if q.grayscale then 1 else 3) ∧
    (f.frameBytes < UInt64.size →
      (0 < f.frameBytes ∧ f.frameBytes ≤ maxFrameBytes →
        result = q.opened f info answer ∧ ∀ bytes, bytes.length = f.frameBytes →
          ∃ hsize, f.image? bytes =
            some ⟨f.width, f.height, f.channels, .bytes ⟨bytes.toArray⟩, hsize⟩) ∧
      (f.frameBytes = 0 ∨ maxFrameBytes < f.frameBytes →
        result = .ok (.error .noResolution))) ∧
    (UInt64.size ≤ f.frameBytes → q.grayscale = false ∧
      (∀ limit ∈ q.maxDimension, UInt64.size ≤ 3 * (limit + 1) ^ 2) ∧
      result = .error .frameTooLarge) ∧
    ∀ stream info', result = .ok (.ok (stream, info')) →
      stream.format = f ∧ 0 < f.frameBytes ∧ f.frameBytes ≤ maxFrameBytes := by
  intro f answer result
  obtain ⟨hwidth, hheight⟩ := sides_lt_of_probe hprobe
  obtain ⟨hfirst, hsecond, -⟩ := outputSize_sides_lt q.maxDimension hwidth hheight
  have hstart : result = _ := fst_start_of_probe hprobe
  have husable (hpos : 0 < f.frameBytes) (hle : f.frameBytes ≤ maxFrameBytes) :
      result = q.opened f info answer := by
    rw [hstart, format_of_usable hpos hle]
  have hunusable (hlt : f.frameBytes < UInt64.size)
      (h : f.frameBytes = 0 ∨ maxFrameBytes < f.frameBytes) :
        result = .ok (.error .noResolution) := by
    rw [hstart, format_of_unusable hlt h]
  have hlarge (hle : UInt64.size ≤ f.frameBytes) : result = .error .frameTooLarge := by
    rw [hstart, format_of_large hle]
  refine ⟨frameBytes_eq f,
    fun hlt => ⟨fun hfits => ⟨husable hfits.1 hfits.2, fun bytes hbytes =>
    FrameStream.image?_of_length hbytes⟩, hunusable hlt⟩, fun hle => ⟨?_, ?_, hlarge hle⟩, ?_⟩
  · exact grayscale_eq_false hfirst hsecond hle
  · exact fun limit hlimit => limit_large hwidth hheight hle hlimit
  · intro stream info' hresult
    rcases Nat.lt_or_ge f.frameBytes UInt64.size with hlt | hle
    · by_cases hfits : 0 < f.frameBytes ∧ f.frameBytes ≤ maxFrameBytes
      · rw [husable hfits.1 hfits.2] at hresult
        exact ⟨format_of_opened hresult, hfits⟩
      · rw [hunusable hlt (by omega)] at hresult
        cases hresult
    · rw [hlarge hle] at hresult
      cases hresult

def answering (report : String) (decoded : List UInt8) : ToolRunner (StateM Unit)
  | .ffprobe, _ => pure (.ok (.atOnce [.bytes report.toUTF8.toList]))
  | .ffmpeg, _ => pure (.ok (.atOnce [.bytes decoded]))

def plainRequest (maxDimension : Option ℕ) : DecodeRequest :=
  ⟨"v.mp4", none, maxDimension, false, none⟩

/-- A video that is shown in 1080 by 1920 pixels, scaled down to 512. -/
theorem start_frameBytes_turned : ∃ info stream,
    ((probe id (answering Probe.turnedReport []) "v.mp4").run ()).1 = .ok (.ok info) ∧
      ((start id (answering Probe.turnedReport []) (plainRequest (some 512))).run ()).1 =
        .ok (.ok (stream, info)) ∧
      stream.format.width = 288 ∧ stream.format.height = 512 ∧
      stream.format.frameBytes = 288 * 512 * 3 := by
  have hread : (((probe id (answering Probe.turnedReport []) "v.mp4").run ()).1.toOption.bind
      Except.toOption).any (fun info => info.width = 1080 ∧ info.height = 1920) = true := by
    decide +kernel
  obtain ⟨info, hprobe, htest⟩ := Outcome.exists_ok_of_any hread
  obtain ⟨hwidth, hheight⟩ := of_decide_eq_true htest
  have hsides : outputSize (some 512) 1080 1920 = (288, 512) := by decide +kernel
  have hsize : ((plainRequest (some 512)).requested info).frameBytes = 288 * 512 * 3 := by
    rw [frameBytes_eq, requested, plainRequest, hwidth, hheight, hsides]
    rfl
  obtain ⟨-, hcounted, -, hstarted⟩ := start_frameBytes (q := plainRequest (some 512)) hprobe
  obtain ⟨husable, -⟩ := hcounted (by rw [hsize]; decide)
  have hresult := (husable (by rw [hsize]; decide)).1
  obtain ⟨hformat, -⟩ := hstarted _ info hresult
  refine ⟨info, _, hprobe, hresult, ?_, ?_, ?_⟩
  · rw [hformat, requested, plainRequest, hwidth, hheight, hsides]
  · rw [hformat, requested, plainRequest, hwidth, hheight, hsides]
  · rw [hformat, hsize]

/-- A report of a video with so many pixels that the bytes of its frames exceed
64 bits by 26. -/
def wideReport : String :=
  "\x7b\"streams\": [\x7b\"codec_type\": \"video\", " ++
    "\"width\": 2007567422, \"height\": 3062868337\x7d]\x7d"

/-- The video is neither refused nor decoded. -/
theorem start_frameBytes_wide :
    ((start id (answering wideReport (List.replicate 26 0)) (plainRequest none)).run ()).1 =
      .error .frameTooLarge := by
  have hread :
      (((probe id (answering wideReport (List.replicate 26 0)) "v.mp4").run ()).1.toOption.bind
      Except.toOption).any (fun info => info.width = 2007567422 ∧ info.height = 3062868337) =
        true := by decide +kernel
  obtain ⟨info, hprobe, htest⟩ := Outcome.exists_ok_of_any hread
  obtain ⟨hwidth, hheight⟩ := of_decide_eq_true htest
  have hsize : ((plainRequest none).requested info).frameBytes =
      2007567422 * 3062868337 * 3 := by
    rw [frameBytes_eq, requested, plainRequest, outputSize, hwidth, hheight]
    rfl
  have hlarge : UInt64.size ≤ ((plainRequest none).requested info).frameBytes := by
    rw [hsize]
    decide
  rw [fst_start_of_probe (q := plainRequest none) hprobe, format_of_large hlarge]

end DecodeRequest

end VideoFingerprint
