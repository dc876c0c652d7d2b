import VideoFingerprint.Proofs.Application.FileSystem
import VideoFingerprint.Proofs.Video.Framing
import VideoFingerprint.Proofs.Video.Outcomes

/-!
Saving fingerprints. Only a usable fingerprint leaves the application, and only for the one
file, or the output, that the command line names: hashing a video is silent, its verdict stops
the run unless the fingerprint is usable, and the one writing step comes after it. So a video
that cannot be hashed leaves an older fingerprint in its file. Such a run has the exit code of
a failure, with one exception: over a length of time or a size of frames that it cannot hold,
the program gives up.
-/

namespace VideoFingerprint

open Application FileSystem

/-- The outcome covers the whole video, or a part of it where that is allowed. -/
def HashOutcome.Usable (allowPartial : Bool) (o : HashOutcome) : Prop :=
  o.completion = .complete ∨ allowPartial = true ∧ ∃ reason, o.completion = .incomplete reason

namespace Settings

variable (s : Settings)

end Settings

namespace Application

def hashOpened (o : CreationOptions) : Attempt VideoError (Decoder Float Image) → HashResult
  | .error abort => .error abort
  | .ok (.error e) => .ok (.error e)
  | .ok (.ok decoder) =>
      VideoHashing.concurrently VideoHashing.cosineTransform o decoder false id

def hashing {m : Type → Type} [Monad m] (host : Host m) (s : Settings) (path : FilePath) :
    m HashResult :=
  match (s.hashing.options host.processors).fault? with
  | some fault => pure (.ok (.error (.config fault)))
  | none => do
    return hashOpened (s.hashing.options host.processors)
      (← VideoHashing.openVideo host.explain host.run (s.hashing.options host.processors) path)

variable {σ Files : Type} {host : Host (StateM σ)} {fs : FileSystem host Files} {α β ε : Type}

/-- From one state to the next a text is written to a file, with the given result, and nothing
else happens to the files and the output. -/
def Writes (fs : FileSystem host Files) (path : FilePath) (text : String)
    (r : Except String Unit) (x y : σ) : Prop :=
  ∃ z, fs.Agree x z ∧ ((host.writeFile path text).run z).1 = r ∧
    fs.Agree ((host.writeFile path text).run z).2 y

/-- From one state to the next a text is printed, with the given result, and nothing else
happens to the files and the output. -/
def Prints (fs : FileSystem host Files) (text : String) (r : Except String Unit) (x y : σ) :
    Prop :=
  ∃ z, fs.Agree x z ∧ ((host.print text).run z).1 = r ∧ fs.Agree ((host.print text).run z).2 y

theorem Prints.output_eq {text : String} {x y : σ} (h : Prints fs text (.ok ()) x y) :
    fs.output y = fs.output x ++ text := by
  obtain ⟨z, hbefore, haccepted, hafter⟩ := h
  rw [hafter.output_eq, fs.output_print text z haccepted, hbefore.output_eq]

/-! ### Loading the query -/

variable (s : Settings)

variable {s}

/-- The program cannot hold a length of time, the end of a time limit or a size of frames. -/
def Excessive (a : Abort) : Prop :=
  a = .durationTooLong ∨ a = .timeoutTooLong ∨ a = .frameTooLarge

/-- An action that is given up only for the sake of something excessive. -/
def GivesUpExcessive (a : StateM σ (Attempt ε α)) : Prop :=
  ∀ x abort, (a.run x).1 = .error abort → Excessive abort

theorem GivesUpExcessive.bind {δ : Type} {a : StateM σ (Attempt δ β)}
    {f : Attempt δ β → StateM σ (Attempt ε α)} (ha : GivesUpExcessive a)
    (herror : ∀ abort, Excessive abort → GivesUpExcessive (f (.error abort)))
    (hok : ∀ r, GivesUpExcessive (f (.ok r))) : GivesUpExcessive (a >>= f) := by
  intro x abort h
  rw [StateT.run_bind] at h
  rcases hrun : a.run x with ⟨abort' | r, y⟩
  · rw [hrun] at h
    exact herror abort' (ha x abort' (by rw [hrun])) y abort h
  · rw [hrun] at h
    exact hok r y abort h

end Application

end VideoFingerprint
