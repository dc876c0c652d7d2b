import VideoFingerprint.Decimal.Literal
import VideoFingerprint.Report
import VideoFingerprint.Text.Integer

/-!
What may stand on the command line: the arguments, the kinds of values that they take, and the
commands with the arguments of each. Some arguments belong to the program as a whole and may
also be given to a command.
-/

namespace VideoFingerprint.CommandLine

/-- The arguments of the program and of its commands. -/
inductive Argument
  | help
  | version
  | format
  | quiet
  | verbose
  | video
  | query
  | output
  | noFetch
  | writeBack
  | allowPartial
  | withVideo
  | withHashes
  | byLine
  | corpus
  | interval
  | downsample
  | threads
  | decodeTimeout
  | distanceThreshold
  | minQuality
  | minRunLength
  | minScore
  | bands
deriving DecidableEq

/-- Why a command line is not understood, or why it asks for information
instead of a command. -/
inductive UsageError
  | missingArgument
  | unknownArgument
  | conflict
  | invalidValue
  | valueNotText
  | malformedNumber
  | unexpectedValue
  | unknownCommand
  | missingCommand
  | nothingGiven
  | helpRequested
  | versionRequested
deriving DecidableEq

/-! ### Values -/

/-- The kinds of values: paths, numbers, natural numbers of 64 and of 32 bits, and
forms of reports. -/
inductive ValueKind
  | path
  | number
  | natural
  | natural32
  | format

/-- What has been given for an argument. -/
inductive Given
  | present
  | path (p : FilePath)
  | number (x : Float)
  | natural (n : Nat)
  | format (f : ReportFormat)

/-- The text of a number. -/
def numberText (word : FilePath) : Except UsageError String :=
  match word.text? with
  | some text => .ok text
  | none => .error .valueNotText

/-- Reads a value. A path is not empty, and a number of 32 bits may have a sign as long as
it is in range. -/
def ValueKind.read (word : FilePath) : ValueKind → Except UsageError Given
  | .path => if word.bytes.isEmpty then .error .invalidValue else .ok (.path word)
  | .number => do
    match Decimal.literal? (← numberText word) with
    | some x => return .number x
    | none => throw .malformedNumber
  | .natural => do
    match Text.parseNatural Text.maxU64 (← numberText word) with
    | .ok n => return .natural n
    | .error _ => throw .malformedNumber
  | .natural32 => do
    match Text.int64? (← numberText word) with
    | some n =>
      if 0 ≤ n ∧ n ≤ Text.maxU32 then return .natural n.toNat else throw .malformedNumber
    | none => throw .malformedNumber
  | .format =>
    if word = "normal" then .ok (.format .normal)
    else if word = "json" then .ok (.format .json)
    else .error .invalidValue

/-! ### Grammars -/

/-- An option: its argument, its long name and its letter, and the kind of its value
if it takes one. -/
structure OptionForm where
  argument : Argument
  long : String
  letter : Option Char
  kind : Option ValueKind

/-- What may follow the program's name, or a command: options, at most one path without a name,
and commands. Of each group in `required` one argument must be given, and those of a pair in
`conflicts` exclude each other. -/
structure Grammar where
  options : List OptionForm
  positional : Option Argument
  commands : List String
  required : List (List Argument)
  conflicts : List (Argument × Argument)

namespace Grammar

/-- The command that a word names. -/
def command? (g : Grammar) (word : FilePath) : Option String :=
  g.commands.find? fun name => FilePath.ofText name = word

def flag (argument : Argument) (long : String) : OptionForm := ⟨argument, long, none, none⟩

def flagWithLetter (argument : Argument) (long : String) (letter : Char) : OptionForm :=
  ⟨argument, long, some letter, none⟩

def value (argument : Argument) (long : String) (kind : ValueKind) : OptionForm :=
  ⟨argument, long, none, some kind⟩

/-- The options that may stand before a command as well as after it. -/
def commonOptions : List OptionForm :=
  [value .format "format" .format, flagWithLetter .quiet "quiet" 'q',
    flagWithLetter .verbose "verbose" 'v', flagWithLetter .help "help" 'h']

def commonConflicts : List (Argument × Argument) := [(.quiet, .verbose)]

def hashingOptions : List OptionForm :=
  [value .interval "seconds-per-hash" .number, value .downsample "downsample" .natural32,
    value .threads "threads" .natural, value .decodeTimeout "decode-timeout" .natural,
    flag .allowPartial "allow-partial"]

def matchingOptions : List OptionForm :=
  [value .distanceThreshold "distance-threshold" .natural32,
    value .minQuality "min-quality" .number, value .minRunLength "min-run-length" .natural]

/-- The options about the query of a comparison or a search. -/
def queryOptions : List OptionForm :=
  [flag .noFetch "no-fetch", value .writeBack "write-back" .path]

def queryConflicts : List (Argument × Argument) := [(.writeBack, .noFetch)]

def helpCommand : String := "help"

def program : Grammar where
  options := flagWithLetter .version "version" 'V' :: commonOptions
  positional := none
  commands := ["hash", "compare", "search", helpCommand]
  required := []
  conflicts := commonConflicts

def hash : Grammar where
  options := ⟨.output, "output", some 'o', some .path⟩ :: hashingOptions ++ commonOptions
  positional := some .video
  commands := []
  required := [[.video]]
  conflicts := commonConflicts

/-- Comparing a query with a video or a stored fingerprint. -/
def compare : Grammar where
  options := value .withVideo "with-video" .path :: value .withHashes "with-hashes" .path
    :: flag .byLine "by-line" :: queryOptions ++ hashingOptions ++ matchingOptions ++
      commonOptions
  positional := some .query
  commands := []
  required := [[.query], [.withVideo, .withHashes]]
  conflicts := (.withVideo, .withHashes) :: queryConflicts ++ commonConflicts

def search : Grammar where
  options := value .corpus "corpus" .path :: value .minScore "min-score" .number
    :: value .bands "bands" .natural :: queryOptions ++ hashingOptions ++ matchingOptions ++
      commonOptions
  positional := some .query
  commands := []
  required := [[.query], [.corpus]]
  conflicts := queryConflicts ++ commonConflicts

end Grammar

end VideoFingerprint.CommandLine
