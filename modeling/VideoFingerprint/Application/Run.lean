import VideoFingerprint.Application.Error
import VideoFingerprint.Application.Host
import VideoFingerprint.CommandLine.Settings
import VideoFingerprint.Video.Opening

/-!
The application: it fingerprints a video, compares a query with a target, or searches a
directory of stored fingerprints. A fingerprint is written only when the video was decoded to
its end, or when a part of it is accepted; a run that fails before that leaves all files as
they are.
-/

namespace VideoFingerprint.Application

/-! ### Stored fingerprints -/

def storedExtension : FilePath := "vpdq"

/-- The names on the way to a file that holds a fingerprint. -/
def isStored (names : List FilePath) : Bool :=
  (names.getLast?.bind FilePath.extension?) = some storedExtension

/-- Names on the way to files are ordered name by name; a directory comes before
what is in it. -/
def namesSortBefore : List FilePath → List FilePath → Bool
  | [], _ => true
  | _ :: _, [] => false
  | a :: as, b :: bs => if a = b then namesSortBefore as bs else a.key < b.key

/-! ### Steps -/

/-- Why a run stops before its end. -/
inductive Stop
  | error (e : ApplicationError)
  | abort (a : Abort)

variable {m : Type → Type} [Monad m] (host : Host m) (s : Settings)

/-- Messages that are shown: a quiet run shows no information. -/
def shows (level : LogLevel) : Bool := level ≠ .info ∨ s.verbosity ≠ .quiet

def note (level : LogLevel) (text : String) : m Unit :=
  if shows s level then host.log level text else pure ()

/-- An action that does not stop the run. -/
def ask {α : Type} (action : m α) : ExceptT Stop m α := ExceptT.lift action

/-- Goes on with the value of an attempt. -/
def attempt {ε α : Type} (error : ε → ApplicationError) : Attempt ε α → ExceptT Stop m α
  | .error a => throw (.abort a)
  | .ok (.error e) => throw (.error (error e))
  | .ok (.ok a) => pure a

def readStored (path : FilePath) : m (Except Fingerprint.FileError Fingerprint) := do
  match ← host.readFile path with
  | .error reason => return .error (.io reason)
  | .ok bytes => return Fingerprint.decodeBytes bytes

def readFingerprint (path : FilePath) : ExceptT Stop m Fingerprint := do
  match ← ask (readStored host path) with
  | .ok p => return p
  | .error e => throw (.error (.readFingerprint path e))

def writeFingerprint (p : Fingerprint) (path : FilePath) : ExceptT Stop m Unit := do
  match ← ask (host.writeFile path p.encode) with
  | .ok () => return ()
  | .error reason => throw (.error (.writeFingerprint path (.io reason)))

def print (text : String) : ExceptT Stop m Unit := do
  match ← ask (host.print text) with
  | .ok () => return ()
  | .error reason => throw (.error (.output reason))

/-- Says that a decoder failed before the end of the video. -/
def noteDecoding (o : HashOutcome) : m Unit :=
  match o.completion with
  | .incomplete (.decoder message) =>
    note host s .warning ("decoding stopped after " ++ toString o.decoded ++ " frames: " ++
      message)
  | _ => pure ()

/-- The fingerprint of a hashed video, if it may be used. One that does not cover the whole
video is used only where that is allowed. -/
def accept (path : FilePath) (o : HashOutcome) : ExceptT Stop m Fingerprint :=
  match o.completion with
  | .complete => pure o.fingerprint
  | .cancelled => throw (.error (.cancelled path))
  | .incomplete reason =>
    if s.allowPartial then do
      ask (note host s .warning (path.display ++ ": decoding stopped early (" ++ reason.message
        ++ "), keeping " ++ toString o.fingerprint.size ++ " features"))
      return o.fingerprint
    else throw (.error (.incomplete path reason))

def fingerprintVideo (path : FilePath) : ExceptT Stop m Fingerprint := do
  let options := s.hashing.options host.processors
  if let some fault := options.fault? then throw (.error (.createHash (.config fault)))
  let decoder ← attempt .createHash
      (← ask (VideoHashing.openVideo host.explain host.run options path))
  ask (note host s .info ("hashing " ++ path.display))
  let outcome ← attempt .createHash
      (VideoHashing.concurrently VideoHashing.cosineTransform options decoder false id)
  ask (noteDecoding host s outcome)
  accept host s path outcome

/-- The fingerprint of the query: hashed from its video and kept in a file if that is wanted,
or read from a file. -/
def loadQuery (path : FilePath) : ExceptT Stop m Fingerprint :=
  if s.fetch then do
    let p ← fingerprintVideo host s path
    match s.writeBack with
    | none => return p
    | some file =>
      writeFingerprint host p file
      ask (note host s .info
        ("wrote fingerprint of " ++ path.display ++ " to " ++ file.display))
      return p
  else readFingerprint host path

/-- The stored fingerprints below a directory with their paths, in the order of the paths. What
is no fingerprint is left out with a warning. -/
def loadCorpus (root : FilePath) : m (List (FilePath × Fingerprint)) := do
  let found ← host.filesBelow root
  for entry in found do
    if let .error reason := entry then note host s .warning reason
  let names := (found.filterMap Except.toOption).filter isStored
  let paths := (names.mergeSort namesSortBefore).map root.below
  let loaded ← paths.mapM fun path => do return (path, ← readStored host path)
  for (path, p) in loaded do
    if let .error e := p then
      note host s .warning ("skipping " ++ path.display ++ ": " ++ e.message)
  return loaded.filterMap fun (path, p) => p.toOption.map fun p => (path, p)

/-! ### Commands -/

def runHash (video : FilePath) (output : Option FilePath) : ExceptT Stop m Unit := do
  let p ← fingerprintVideo host s video
  match output with
  | some path => writeFingerprint host p path
  | none => print host p.encode

def compareReport (byLine : Bool) (query target : Fingerprint) :
    Except LengthMismatch String :=
  if byLine then (matchByLine s.matching query target).map (Report.byLine s.format)
  else .ok (Report.comparison s.format (s.verbosity = .verbose)
    (matchFingerprints s.matching query target))

def runCompare (query : FilePath) (target : Target) (byLine : Bool) : ExceptT Stop m Unit := do
  let queryPrint ← loadQuery host s query
  let targetPrint ← match target with
    | .video path => fingerprintVideo host s path
    | .hashes path => readFingerprint host path
  match compareReport s byLine queryPrint targetPrint with
  | .ok report => print host report
  | .error e => throw (.error (.lengths e))

def searchHits (corpus : List (FilePath × Fingerprint)) (query : Fingerprint) :
    Except Abort (List (IndexHit FilePath)) :=
  match (Index.ofEntries? s.index corpus).bind fun x => x.query? s.matching query with
  | some hits => .ok hits
  | none => .error .unusableIndex

/-- Prints the report on the hits of a search, if there can be one. -/
def printHits (hits : List (IndexHit FilePath)) : ExceptT Stop m Unit :=
  match Report.search s.format (s.verbosity = .verbose) hits with
  | .ok report => print host report
  | .error reason => throw (.error (.output reason))

def searchStored (stored : List (FilePath × Fingerprint)) (query : Fingerprint) :
    ExceptT Stop m Unit := do
  ask (note host s .info ("searching " ++ toString stored.length ++ " stored fingerprints"))
  match searchHits s stored query with
  | .error a => throw (.abort a)
  | .ok hits =>
    ask (note host s .info (toString hits.length ++ " matches"))
    printHits host s hits

def runSearch (query corpus : FilePath) : ExceptT Stop m Unit := do
  unless ← ask (host.isDirectory corpus) do throw (.error (.noCorpus corpus))
  let queryPrint ← loadQuery host s query
  let stored ← ask (loadCorpus host s corpus)
  searchStored host s stored queryPrint

def runCommand : ExceptT Stop m Unit :=
  match s.command with
  | .hash video output => runHash host s video output
  | .compare query target byLine => runCompare host s query target byLine
  | .search query corpus => runSearch host s query corpus

/-! ### The whole run -/

def successCode : Nat := 0

def failureCode : Nat := 1

def usageCode : Nat := 2

def abortCode : Nat := 101

/-- Logs an error, in a verbose run with its causes. -/
def noteError (e : ApplicationError) : m Unit := do
  note host s .error e.message
  if s.verbosity = .verbose then
    for cause in e.causes do note host s .error ("    caused by: " ++ cause)

/-- Runs the command of the settings and gives the exit code. -/
def run : m Nat := do
  match ← (runCommand host s).run with
  | .ok () => return successCode
  | .error (.abort _) => return abortCode
  | .error (.error e) =>
    noteError host s e
    return failureCode

end VideoFingerprint.Application
