import Mathlib.Data.List.Basic
import Mathlib.Logic.Function.Iterate
import VideoFingerprint.Video.FrameStream

/-!
Framing. What a stream gives depends on the bytes of the output and on the way the program
ended, not on the pieces in which the output is delivered. After some frames the stream stands
at the bytes after these frames; one step from there gives the next frame or the ending, and
the ending is the last thing that is given.
-/

namespace VideoFingerprint

def ToolRun.atOnce (output : List OutputPiece) : ToolRun :=
  ⟨output, ByteArray.empty, ⟨0, .ok (.code 0)⟩, fun i => i⟩

/-! ### Filling a buffer -/

def contentOf (pieces : List OutputPiece) : List UInt8 := pieces.flatMap OutputPiece.content

def Unbroken (pieces : List OutputPiece) : Prop := ∀ p ∈ pieces, p.isLast = false

@[simp] theorem contentOf_bytes (chunk : List UInt8) (rest : List OutputPiece) :
    contentOf (.bytes chunk :: rest) = chunk ++ contentOf rest := rfl

/-- However the output is cut, a buffer gets its first bytes and the others are left. -/
theorem fill_of_unbroken {pieces : List OutputPiece} (h : Unbroken pieces) (need : ℕ) :
    ∃ rest, fill need none pieces = ⟨.ok ((contentOf pieces).take need), none, rest⟩ ∧
      contentOf rest = (contentOf pieces).drop need ∧ Unbroken rest := by
  induction pieces generalizing need with
  | nil => cases need <;> exact ⟨[], rfl, rfl, h⟩
  | cons p rest ih =>
      cases need with
      | zero => exact ⟨p :: rest, rfl, rfl, h⟩
      | succ need =>
          obtain ⟨hp, hrest⟩ := List.forall_mem_cons.1 h
          cases p with
          | failed kind => cases hp
          | interrupted => exact ih hrest (need + 1)
          | bytes chunk =>
              have hchunk : chunk.isEmpty = false := hp
              have hfill : fill (need + 1) none (.bytes chunk :: rest) = _ := fill.eq_def ..
              dsimp only [overdue?, Option.filter_none, Option.map_none] at hfill
              rw [hchunk, if_neg Bool.false_ne_true] at hfill
              rw [hfill, contentOf_bytes, List.take_append, List.drop_append]
              cases hdrop : chunk.drop (need + 1) with
              | nil =>
                  obtain ⟨after, hafter, hcontent, hunbroken⟩ :=
                    ih hrest (need + 1 - chunk.length)
                  have hle : chunk.length ≤ need + 1 := List.drop_eq_nil_iff.1 hdrop
                  refine ⟨after, ?_, hcontent, hunbroken⟩
                  rw [List.take_of_length_le hle]
                  dsimp only
                  rw [hafter]
                  rfl
              | cons b left =>
                  have hlt : need + 1 < chunk.length := by
                    rw [← Nat.sub_pos_iff_lt, ← List.length_drop, hdrop]
                    exact Nat.succ_pos _
                  rw [Nat.sub_eq_zero_of_le (Nat.le_of_lt hlt), List.take_zero,
                    List.append_nil, List.drop_zero]
                  exact ⟨.bytes (b :: left) :: rest, rfl, rfl,
                    List.forall_mem_cons.2 ⟨rfl, hrest⟩⟩

namespace FrameStream

variable {f : StreamFormat} {content : List UInt8} {status : ExitStatus} {s s' : FrameStream}
  {k : ℕ}

/-! ### One step -/

/-- The stream after a number of whole frames of the content. -/
structure At (f : StreamFormat) (content : List UInt8) (status : ExitStatus) (k : ℕ)
    (s : FrameStream) : Prop where
  format_eq : s.format = f
  limit_eq : s.limit = none
  status_eq : s.exit.status = .ok status
  count_eq : s.count = k
  going : s.finished = false
  rest_eq : contentOf s.output = content.drop (k * f.frameBytes)
  unbroken : Unbroken s.output

structure IsFrame (f : StreamFormat) (content : List UInt8) (i : ℕ) (x : StreamFrame) :
    Prop where
  index_eq : x.index = i
  time_eq : x.frame.time = Float.ofNat i / f.rate
  width_eq : x.frame.image.width = f.width
  height_eq : x.frame.image.height = f.height
  channels_eq : x.frame.image.channels = f.channels
  samples_eq : x.frame.image.samples =
    .bytes ⟨((content.drop (i * f.frameBytes)).take f.frameBytes).toArray⟩

/-- What comes after the whole frames of the content. -/
def ending (f : StreamFormat) (content : List UInt8) (status : ExitStatus) :
    List (Except ToolError StreamFrame) :=
  let frames := content.length / f.frameBytes
  let left := content.length % f.frameBytes
  if left ≠ 0 then [.error (.truncatedFrame frames left f.frameBytes)]
  else if status.isSuccess then []
  else [.error (.failed ("ffmpeg exited with " ++ status.description ++ " after " ++
    toString frames ++ " frames"))]

theorem next_of_fill (hgoing : s.finished = false) {bytes : List UInt8}
    {limit : Option TimeLimit} {rest : List OutputPiece}
    (hfill : fill s.format.frameBytes s.limit s.output = ⟨.ok bytes, limit, rest⟩) :
    s.next =
      let s := { s with limit := limit, output := rest }
      if bytes.isEmpty then (s.failure?.map .error, s.finish)
      else if bytes.length < s.format.frameBytes then
        (some (.error (.truncatedFrame s.count bytes.length s.format.frameBytes)), s.finish)
      else match s.format.image? bytes with
        | none => (none, s.finish)
        | some image => (some (.ok ⟨s.count, ⟨image, Float.ofNat s.count / s.format.rate⟩⟩),
            { s with count := s.count + 1 }) := by
  rw [next, hgoing, hfill]
  rfl

/-- A full share of the content makes a picture of the format. -/
theorem image?_of_length {bytes : List UInt8} (h : bytes.length = f.frameBytes) :
    ∃ hsize, f.image? bytes =
      some ⟨f.width, f.height, f.channels, .bytes ⟨bytes.toArray⟩, hsize⟩ := by
  have hsize : (Samples.bytes ⟨bytes.toArray⟩).size = f.frameBytes := h
  exact ⟨hsize, dif_pos hsize⟩

namespace At

variable (h : At f content status k s)
include h

/-- The buffer gets its share of the content. -/
theorem exists_fill : ∃ rest, fill s.format.frameBytes s.limit s.output =
    ⟨.ok ((content.drop (k * f.frameBytes)).take f.frameBytes), none, rest⟩ ∧
      contentOf rest = content.drop ((k + 1) * f.frameBytes) ∧ Unbroken rest := by
  obtain ⟨rest, hfill, hrest, hunbroken⟩ := fill_of_unbroken h.unbroken f.frameBytes
  rw [h.rest_eq] at hfill hrest
  rw [List.drop_drop, ← Nat.succ_mul] at hrest
  exact ⟨rest, by rw [h.format_eq, h.limit_eq, hfill], hrest, hunbroken⟩

/-- Where the content has another whole frame, the step gives this frame. -/
theorem next_frame (hpos : 0 < f.frameBytes)
    (hmore : (k + 1) * f.frameBytes ≤ content.length) :
    ∃ x s', s.next = (some (.ok x), s') ∧ IsFrame f content k x ∧
      At f content status (k + 1) s' := by
  obtain ⟨rest, hfill, hrest, hunbroken⟩ := h.exists_fill
  have hlength : ((content.drop (k * f.frameBytes)).take f.frameBytes).length =
      f.frameBytes := by
    rw [List.length_take, List.length_drop]
    rw [Nat.add_mul] at hmore
    omega
  have hne : ((content.drop (k * f.frameBytes)).take f.frameBytes).isEmpty = false := by
    rw [List.isEmpty_eq_false_iff, ← List.length_pos_iff, hlength]
    exact hpos
  obtain ⟨hsize, himage⟩ := image?_of_length hlength
  have hnext : s.next =
      (some
        (.ok ⟨k, ⟨⟨f.width, f.height, f.channels, .bytes ⟨_⟩, hsize⟩,
          Float.ofNat k / f.rate⟩⟩),
        { s with limit := none, output := rest, count := k + 1 }) := by
    rw [next_of_fill h.going hfill]
    dsimp only
    rw [h.format_eq, h.count_eq, if_neg (by simp [hne]), if_neg (by omega), himage]
  exact ⟨_, _, hnext, ⟨rfl, rfl, rfl, rfl, rfl, rfl⟩,
    h.format_eq, rfl, h.status_eq, rfl, h.going, hrest, hunbroken⟩

/-- Where the content has no other whole frame, the step gives the ending, and the
stream has ended. -/
theorem next_ending (hpos : 0 < f.frameBytes) (hk : k = content.length / f.frameBytes) :
    ∃ s' : FrameStream, s.next = ((ending f content status).head?, s'.finish) := by
  obtain ⟨rest, hfill, -⟩ := h.exists_fill
  have hleft : (content.drop (k * f.frameBytes)).length = content.length % f.frameBytes := by
    rw [List.length_drop, hk, Nat.mod_eq_sub_div_mul]
  have hlt : content.length % f.frameBytes < f.frameBytes := Nat.mod_lt _ hpos
  have hall : (content.drop (k * f.frameBytes)).take f.frameBytes =
      content.drop (k * f.frameBytes) :=
    List.take_of_length_le (by omega)
  refine ⟨{ s with limit := none, output := rest }, ?_⟩
  rw [next_of_fill h.going hfill, hall, ending, ← hk]
  dsimp only
  rw [h.format_eq, h.count_eq]
  by_cases hzero : content.length % f.frameBytes = 0
  · rw [if_pos (List.isEmpty_iff_length_eq_zero.2 (hleft.trans hzero)),
      if_neg (not_not_intro hzero)]
    simp only [failure?, wait, h.status_eq, Except.mapError]
    cases status.isSuccess <;> simp
  · have hne : ¬ (content.drop (k * f.frameBytes)).isEmpty := fun hnil =>
      hzero (hleft.symm.trans (List.isEmpty_iff_length_eq_zero.1 hnil))
    rw [if_neg hne, hleft, if_pos hlt, if_pos hzero]
    rfl

end At

/-! ### All steps -/

theorem items_of_none (h : s.next = (none, s')) : s.items = [] := by
  rw [items]
  split <;> simp_all

theorem items_of_error {e : ToolError} (h : s.next = (some (.error e), s')) :
    s.items = [.error e] := by
  rw [items]
  split <;> simp_all

theorem items_of_frame {x : StreamFrame} (h : s.next = (some (.ok x), s')) :
    s.items = .ok x :: s'.items := by
  rw [items]
  split <;> simp_all

def call (s : FrameStream) (i : ℕ) : Option (Except ToolError StreamFrame) :=
  ((fun s : FrameStream => s.next.2)^[i] s).next.1

theorem call_succ (s : FrameStream) (i : ℕ) : s.call (i + 1) = s.next.2.call i := rfl

theorem call_finish (s : FrameStream) (i : ℕ) : s.finish.call i = none := by
  induction i with
  | zero => rfl
  | succ i ih => exact ih

/-- A stream ends with one error, or with none. -/
theorem ending_eq (f : StreamFormat) (content : List UInt8) (status : ExitStatus) :
    ending f content status = [] ∨ ∃ e, ending f content status = [.error e] := by
  rw [ending]
  split
  · exact Or.inr ⟨_, rfl⟩
  · split
    · exact Or.inl rfl
    · exact Or.inr ⟨_, rfl⟩

theorem ending_eq_nil_iff :
    ending f content status = [] ↔ f.frameBytes ∣ content.length ∧
      status.isSuccess = true := by
  rw [ending, Nat.dvd_iff_mod_eq_zero]
  by_cases hleft : content.length % f.frameBytes = 0
  · rw [if_neg (not_not_intro hleft)]
    cases status.isSuccess <;> simp [hleft]
  · rw [if_pos hleft]
    simp [hleft]

/-- Once the frames are over, the ending comes, and then nothing. -/
theorem At.calls_ending (h : At f content status k s) (hpos : 0 < f.frameBytes)
    (hk : k = content.length / f.frameBytes) :
    (∀ i, s.call i = (ending f content status)[i]?) ∧ s.items = ending f content status := by
  obtain ⟨last, hnext⟩ := h.next_ending hpos hk
  have hlater : ∀ i, s.call (i + 1) = none := fun i => by rw [call_succ, hnext, call_finish]
  have hfirst : s.call 0 = (ending f content status).head? := congrArg Prod.fst hnext
  rcases ending_eq f content status with heq | ⟨e, heq⟩
  · rw [heq] at hnext hfirst ⊢
    refine ⟨fun i => ?_, items_of_none hnext⟩
    cases i with
    | zero => exact hfirst
    | succ i => exact hlater i
  · rw [heq] at hnext hfirst ⊢
    refine ⟨fun i => ?_, items_of_error hnext⟩
    cases i with
    | zero => exact hfirst
    | succ i => exact hlater i

/-- After some of the frames come the others, then the ending, and then nothing. -/
theorem At.exists_frames (h : At f content status k s) (hpos : 0 < f.frameBytes) (n : ℕ)
    (hn : k + n = content.length / f.frameBytes) :
    ∃ frames : List StreamFrame, frames.length = n ∧
      (∀ i x, frames[i]? = some x → IsFrame f content (k + i) x) ∧
      (∀ i, s.call i = (frames.map .ok ++ ending f content status)[i]?) ∧
      s.items = frames.map .ok ++ ending f content status := by
  induction n generalizing k s with
  | zero =>
      obtain ⟨hcalls, hitems⟩ := h.calls_ending hpos hn
      refine ⟨[], rfl, fun i x hx => ?_, hcalls, hitems⟩
      cases hx
  | succ n ih =>
      have hmore : (k + 1) * f.frameBytes ≤ content.length :=
        (Nat.le_div_iff_mul_le hpos).1 (by omega)
      obtain ⟨x, s', hnext, hx, hs'⟩ := h.next_frame hpos hmore
      obtain ⟨frames, hlength, hframes, hcalls, hitems⟩ := ih hs' (by omega)
      refine ⟨x :: frames, by rw [List.length_cons, hlength],
        fun i y hy => ?_, fun i => ?_, ?_⟩
      · cases i with
        | zero =>
            obtain rfl : x = y := Option.some.inj hy
            exact hx
        | succ i => exact Nat.add_right_comm k 1 i ▸ hframes i y hy
      · cases i with
        | zero => rw [call, Function.iterate_zero, id, hnext]; rfl
        | succ i =>
            rw [call_succ, hnext]
            exact hcalls i
      · rw [items_of_frame hnext, hitems]
        rfl

/-- What a stream gives does not depend on how the output is delivered. Without a time
limit there is a frame for each whole share of the bytes; then comes an error if bytes are
left over or if the program failed; then nothing more. So as a decoder the stream reports
the end of the video, and no failure, exactly when the bytes are shares of frames and the
program succeeded. -/
theorem frames_of_output {r : ToolRun} (hunbroken : ∀ p ∈ r.output, p.isLast = false)
    (hstatus : r.exit.status = .ok status) (hpos : 0 < f.width * f.height * f.channels.count) :
    let s := ofRun f none r
    let content := r.output.flatMap OutputPiece.content
    f.frameBytes = f.width * f.height * f.channels.count ∧
    ∃ frames : List StreamFrame, frames.length = content.length / f.frameBytes ∧
      (∀ i x, frames[i]? = some x → IsFrame f content i x) ∧
      (∀ i, s.call i = (frames.map .ok ++ ending f content status)[i]?) ∧
      s.items = frames.map .ok ++ ending f content status ∧
      ∀ duration, (∀ a ∈ (s.toDecoder duration).answers, ∃ given, a.pull = .frame given) ↔
        f.frameBytes ∣ content.length ∧ status.isSuccess = true := by
  intro s content
  have hstart : At f content status 0 s :=
    ⟨rfl, rfl, hstatus, rfl, rfl, by rw [Nat.zero_mul, List.drop_zero]; rfl, hunbroken⟩
  obtain ⟨frames, hlength, hframes, hcalls, hitems⟩ :=
    hstart.exists_frames hpos _ (Nat.zero_add _)
  refine ⟨rfl, frames, hlength, fun i x hx => Nat.zero_add i ▸ hframes i x hx, hcalls, hitems,
    fun duration => ?_⟩
  have hanswers : (s.toDecoder duration).answers =
      (frames.map .ok).map answer ++ (ending f content status).map answer := by
    rw [toDecoder, hitems, List.map_append]
  have hall : (∀ a ∈ (s.toDecoder duration).answers, ∃ given, a.pull = .frame given) ↔
      ending f content status = [] := by
    rw [hanswers]
    rcases ending_eq f content status with heq | ⟨e, heq⟩
    · simp [heq, answer]
    · simp [heq, answer]
  exact hall.trans ending_eq_nil_iff

def cutOutput : ToolRun := .atOnce [.bytes [1], .interrupted, .bytes [2, 3], .bytes [4, 5]]

def grayPairs : StreamFormat := ⟨2, 1, true, 25⟩

theorem frames_of_cutOutput :
    (∀ p ∈ cutOutput.output, p.isLast = false) ∧ cutOutput.exit.status = .ok (.code 0) ∧
      grayPairs.width * grayPairs.height * grayPairs.channels.count = 2 ∧
      ∃ x y, (ofRun grayPairs none cutOutput).items =
        [.ok x, .ok y, .error (.truncatedFrame 2 1 2)] ∧
        y.index = 1 ∧ y.frame.image.samples = .bytes ⟨#[3, 4]⟩ ∧
        (ofRun grayPairs none cutOutput).call 3 = none := by
  have hunbroken : ∀ p ∈ cutOutput.output, p.isLast = false := by decide
  obtain ⟨-, frames, hlength, hframes, hcalls, hitems, -⟩ :=
    frames_of_output (f := grayPairs) (r := cutOutput) hunbroken rfl (by decide)
  obtain ⟨x, y, rfl⟩ := List.length_eq_two.1 (hlength.trans rfl)
  have hy := hframes 1 y rfl
  exact ⟨hunbroken, rfl, rfl, x, y, hitems, hy.index_eq, hy.samples_eq, hcalls 3⟩

end FrameStream

end VideoFingerprint
