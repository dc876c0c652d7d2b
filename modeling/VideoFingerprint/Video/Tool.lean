import VideoFingerprint.FilePath
import VideoFingerprint.Video.Clock
import VideoFingerprint.Video.Probe

/-!
The two programs that know how to read videos: one reports the properties of a video, the other
decodes it to raw frames. Running a program gives the pieces of its output as they are
delivered, what it writes about its errors, the way it ends, and the times at which that
happens.
-/

namespace VideoFingerprint

/-- The programs: `ffprobe` reports, `ffmpeg` decodes. -/
inductive Tool
  | ffprobe
  | ffmpeg
deriving DecidableEq

def Tool.name : Tool → String
  | .ffprobe => "ffprobe"
  | .ffmpeg => "ffmpeg"

/-- Why a program cannot be started: it is not there, or for a reason of the named kind. -/
inductive StartFailure
  | notFound
  | other (kind : String)

/-! ### How a program ended -/

/-- A finished program gives a code, or was stopped by a signal. -/
inductive ExitStatus
  | code (n : Nat)
  | signal (n : Nat)
deriving DecidableEq

namespace ExitStatus

def isSuccess (s : ExitStatus) : Bool := s = .code 0

/-- The names of the signals, from number one on. -/
def signalNames : List String :=
  ["SIGHUP", "SIGINT", "SIGQUIT", "SIGILL", "SIGTRAP", "SIGABRT", "SIGBUS", "SIGFPE",
    "SIGKILL", "SIGUSR1", "SIGSEGV", "SIGUSR2", "SIGPIPE", "SIGALRM", "SIGTERM", "SIGSTKFLT",
    "SIGCHLD", "SIGCONT", "SIGSTOP", "SIGTSTP", "SIGTTIN", "SIGTTOU", "SIGURG", "SIGXCPU",
    "SIGXFSZ", "SIGVTALRM", "SIGPROF", "SIGWINCH", "SIGIO", "SIGPWR", "SIGSYS"]

def signalName? : Nat → Option String
  | 0 => none
  | n + 1 => signalNames[n]?

def description : ExitStatus → String
  | code n => "exit status: " ++ toString n
  | signal n => "signal: " ++ toString n ++ (signalName? n).elim "" fun name =>
      " (" ++ name ++ ")"

end ExitStatus

/-! ### Output -/

/-- A piece of output as it is delivered: some bytes, an interruption that brings none, or a
failure of the named kind. An empty piece of bytes marks the end of the output. -/
inductive OutputPiece
  | bytes (chunk : List UInt8)
  | interrupted
  | failed (kind : String)

namespace OutputPiece

def content : OutputPiece → List UInt8
  | bytes chunk => chunk
  | interrupted | failed _ => []

/-- Nothing is read after such a piece. -/
def isLast : OutputPiece → Bool
  | bytes chunk => chunk.isEmpty
  | interrupted => false
  | failed _ => true

end OutputPiece

/-- The end of a program: the moment at which waiting for it is over, and its status, or the
kind of failure if it cannot be waited for. -/
structure ToolExit where
  moment : Int
  status : Except String ExitStatus

/-- What happens to a program that was started: what it writes, how it ends, and what a clock
shows meanwhile, first of all when the program was started. -/
structure ToolRun where
  output : List OutputPiece
  errors : ByteArray
  exit : ToolExit
  clock : Nat → Int

/-- All that can be read of an output. -/
def readableBytes (pieces : List OutputPiece) : ByteArray :=
  ⟨((pieces.takeWhile fun p => ! p.isLast).flatMap OutputPiece.content).toArray⟩

abbrev ToolRunner (m : Type → Type) := Tool → List FilePath → m (Except StartFailure ToolRun)

/-! ### Errors -/

/-- Why a video cannot be probed or decoded. -/
inductive ToolError
  | notInstalled
  | io (kind : String)
  | failed (reason : String)
  | notUtf8
  | noResolution
  | truncatedFrame (frame bytes frameBytes : Nat)
  | timedOut (seconds : Nat)
  | info (error : InfoError)

namespace ToolError

def message : ToolError → String
  | notInstalled => "ffmpeg/ffprobe not found. Make sure both are installed and on the PATH"
  | io kind => "I/O error while running ffmpeg: " ++ kind
  | failed reason => "ffmpeg failed: " ++ reason
  | notUtf8 => "ffmpeg/ffprobe output is not valid utf8"
  | noResolution => "no video stream with a usable resolution"
  | truncatedFrame frame bytes frameBytes =>
    "ffmpeg output ended part way through frame " ++ toString frame ++ " (" ++
      toString bytes ++ " of "
      ++ toString frameBytes ++ " bytes)"
  | timedOut seconds => "ffmpeg timed out after " ++ toString seconds ++ " seconds"
  | info error => "Failed to get video properties: " ++ error.message

def ofStart : StartFailure → ToolError
  | .notFound => notInstalled
  | .other kind => io kind

end ToolError

/-- What comes of waiting for a program until the given moment, when the seconds are over. -/
def ToolExit.until (e : ToolExit) (seconds : Nat) (moment : Int) :
    Except ToolError ExitStatus :=
  if moment < e.moment then .error (.timedOut seconds) else e.status.mapError .io

/-! ### Reports -/

/-- The number of seconds that a reporting program is given. -/
def reportSeconds : Nat := 60

/-- The output of a reporting program as text. A program that failed gives the start of what it
wrote about its errors instead. -/
def ToolRun.text (r : ToolRun) : Except ToolError String :=
  match r.exit.until reportSeconds (TimeLimit.later (r.clock 0) reportSeconds) with
  | .error e => .error e
  | .ok status =>
    if status.isSuccess then
      match String.fromUTF8? (readableBytes r.output) with
      | some text => .ok text
      | none => .error .notUtf8
    else
      match String.fromUTF8? r.errors with
      | some text => .error (.failed (shortened text))
      | none => .error .notUtf8

end VideoFingerprint
