import VideoFingerprint.Application.Disk
import VideoFingerprint.Application.Host

/-!
A machine in memory: a disk, programs that answer by a fixed rule, and what has been printed
and logged. It serves to say what a run of the application leaves behind.
-/

namespace VideoFingerprint

structure Machine where
  disk : Disk
  programs : Tool → List FilePath → Except StartFailure ToolRun
  printed : String
  logged : List (LogLevel × String)
  complaints : List String

namespace Machine

def start (disk : Disk) (programs : Tool → List FilePath → Except StartFailure ToolRun) :
    Machine :=
  ⟨disk, programs, "", [], []⟩

/-- Writing a file changes the disk unless it fails. -/
def writeFile (path : FilePath) (text : String) (x : Machine) : Except String Unit × Machine :=
  match x.disk.write path text.toUTF8 with
  | .ok disk => (.ok (), { x with disk })
  | .error e => (.error e.message, x)

def host : Host (StateM Machine) where
  readFile path := do return ((← get).disk.read path).mapError DiskFault.message
  writeFile path text := writeFile path text
  isDirectory path := do return (← get).disk.isDirectory path
  filesBelow path := do return ((← get).disk.filesBelow path).map .ok
  run tool args := do return (← get).programs tool args
  explain _ := "not a report of streams and a format"
  print text := do
    modify fun x => { x with printed := x.printed ++ text }
    return .ok ()
  log level text := modify fun x => { x with logged := x.logged ++ [(level, text)] }
  complain text := modify fun x => { x with complaints := x.complaints ++ [text] }
  processors := 1

end Machine

end VideoFingerprint
