import VideoFingerprint.CommandLine.Reading
import VideoFingerprint.Corpus.Config
import VideoFingerprint.Matching.Config
import VideoFingerprint.Video.Options

/-!
The settings that a command line asks for. Values out of range are refused here, settings of
hashing before those of matching and of searching.
-/

namespace VideoFingerprint

/-- The other side of a comparison. -/
inductive Target
  | video (path : FilePath)
  | hashes (path : FilePath)

/-- What the program is to do: write the fingerprint of a video to a file or to the output,
compare a query with a target, or search a directory for matches of a query. -/
inductive Command
  | hash (video : FilePath) (output : Option FilePath)
  | compare (query : FilePath) (target : Target) (byLine : Bool)
  | search (query corpus : FilePath)

/-- How much is said besides the answer. -/
inductive Verbosity
  | quiet
  | normal
  | verbose
deriving DecidableEq

/-- Settings of hashing; how many workers are used may be left to the machine. -/
structure HashingSettings where
  interval : Float
  threads : Option Nat
  maxDimension : Option Nat
  timeout : Option Nat

/-- The options of hashing on a machine with so many processors. -/
def HashingSettings.options (s : HashingSettings) (processors : Nat) : CreationOptions where
  interval := s.interval
  threads := s.threads.getD processors
  concurrentVideos := 1
  maxDimension := s.maxDimension
  timeout := s.timeout

/-- The settings of a run. With `fetch` the query is a video that is hashed, and its
fingerprint may be kept in a file; otherwise it is a stored fingerprint. -/
structure Settings where
  command : Command
  hashing : HashingSettings
  matching : MatchConfig
  index : IndexConfig
  fetch : Bool
  writeBack : Option FilePath
  allowPartial : Bool
  format : ReportFormat
  verbosity : Verbosity

/-- The groups of settings. -/
inductive SettingsGroup
  | hashing
  | matching
  | search

def SettingsGroup.message : SettingsGroup → String
  | .hashing => "Invalid hashing options"
  | .matching => "Invalid match options"
  | .search => "Invalid search options"

/-- Why a command line leads to no run. -/
inductive SettingsError
  | usage (error : CommandLine.UsageError)
  | config (group : SettingsGroup) (fault : ConfigFault)

namespace CommandLine.Invocation

/-! ### Values of arguments -/

def flag (i : Invocation) (a : Argument) : Bool := (i.find? a).isSome

def path? (i : Invocation) (a : Argument) : Option FilePath :=
  match i.find? a with
  | some (.path p) => some p
  | _ => none

def number? (i : Invocation) (a : Argument) : Option Float :=
  match i.find? a with
  | some (.number x) => some x
  | _ => none

def natural? (i : Invocation) (a : Argument) : Option Nat :=
  match i.find? a with
  | some (.natural n) => some n
  | _ => none

/-! ### Settings -/

/-- The longest side of a decoded frame, unless something else is asked for. -/
def defaultMaxDimension : Nat := 512

def hashing (i : Invocation) : HashingSettings where
  interval := (i.number? .interval).getD 1
  threads := i.natural? .threads
  maxDimension := some ((i.natural? .downsample).getD defaultMaxDimension) |>.filter (· ≠ 0)
  timeout := i.natural? .decodeTimeout

def matching (i : Invocation) : Except ConfigFault MatchConfig :=
  MatchConfig.build ((i.natural? .distanceThreshold).getD MatchConfig.default.threshold)
    ((i.number? .minQuality).getD MatchConfig.default.minQuality)
    ((i.natural? .minRunLength).getD MatchConfig.default.minRun)

def index (i : Invocation) : Except ConfigFault IndexConfig :=
  IndexConfig.build ((i.natural? .bands).getD IndexConfig.default.bands)
    ((i.number? .minScore).getD IndexConfig.default.minScore)

def verbosity (i : Invocation) : Verbosity :=
  if i.flag .quiet then .quiet else if i.flag .verbose then .verbose else .normal

def format (i : Invocation) : ReportFormat :=
  match i.find? .format with
  | some (.format f) => f
  | _ => .normal

def command? (i : Invocation) : Option Command :=
  match i.command with
  | "hash" => do return .hash (← i.path? .video) (i.path? .output)
  | "compare" => do
    let query ← i.path? .query
    let target ← ((i.path? .withVideo).map .video).or ((i.path? .withHashes).map .hashes)
    return .compare query target (i.flag .byLine)
  | "search" => do return .search (← i.path? .query) (← i.path? .corpus)
  | _ => none

end CommandLine.Invocation

namespace Settings

open CommandLine

def ofInvocation (i : Invocation) : Except SettingsError Settings := do
  if let some fault := (i.hashing.options 1).fault? then throw (.config .hashing fault)
  let matching ← i.matching.mapError (.config .matching)
  let index ← i.index.mapError (.config .search)
  match i.command? with
  | none => throw (.usage .missingArgument)
  | some command => return {
      command, matching, index
      hashing := i.hashing
      fetch := !i.flag .noFetch
      writeBack := i.path? .writeBack
      allowPartial := i.flag .allowPartial
      format := i.format
      verbosity := i.verbosity }

/-- The settings that the words of a command line ask for. -/
def ofWords (words : List FilePath) : Except SettingsError Settings := do
  ofInvocation (← (Invocation.ofWords words).mapError .usage)

end Settings

end VideoFingerprint
