import VideoFingerprint.Application.Start

/-!
The command line. The host reads and writes files and prints; it starts no programs and lists
no directories, so that a video counts as one whose tools are not installed, and a search looks
at no stored fingerprint.
-/

namespace VideoFingerprint.Terminal

def attempt {α : Type} (action : IO α) : IO (Except String α) := do
  match ← action.toBaseIO with
  | .ok a => return .ok a
  | .error e => return .error (toString e)

def levelName : LogLevel → String
  | .error => "ERROR"
  | .warning => "WARN"
  | .info => "INFO"

/-- Files are only found under paths that are texts. -/
def attemptAt {α : Type} (path : FilePath) (action : String → IO α) : IO (Except String α) :=
  match path.text? with
  | some text => attempt (action text)
  | none => return .error Report.pathNotText

/-- A directory is what holds an entry for itself. -/
def isDirectory (path : FilePath) : IO Bool :=
  return (← attemptAt path fun text => IO.FS.Handle.mk (text ++ "/.") .read).toBool

def host : Host IO where
  readFile path := attemptAt path fun name => IO.FS.readBinFile name
  writeFile path text := attemptAt path fun name => IO.FS.writeFile name text
  isDirectory := isDirectory
  filesBelow root := return [.error (root.display ++ ": the directory cannot be listed")]
  run _ _ := return .error .notFound
  explain _ := "not a report of streams and a format"
  print text := attempt do
    let out ← IO.getStdout
    out.putStr text
    out.flush
  log level text := IO.eprintln ("[" ++ levelName level ++ "] " ++ text)
  complain := IO.eprintln
  processors := 1

end VideoFingerprint.Terminal

/-- Runs the application on the words of the command line. -/
def main (words : List String) : IO UInt32 := do
  return .ofNat (← VideoFingerprint.Application.start VideoFingerprint.Terminal.host
    (words.map VideoFingerprint.FilePath.ofText))
