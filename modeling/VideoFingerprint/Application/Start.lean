import VideoFingerprint.Application.Run

/-!
Starting the application from the words of a command line.
-/

namespace VideoFingerprint

namespace CommandLine

/-- Requests for information succeed; every other usage error fails. -/
def UsageError.exitCode : UsageError → Nat
  | .helpRequested | .versionRequested => Application.successCode
  | _ => Application.usageCode

def UsageError.message : UsageError → String
  | .missingArgument => "a required argument is missing"
  | .unknownArgument => "unknown argument"
  | .conflict => "arguments exclude each other or are repeated"
  | .invalidValue => "a value is missing or not among the possible ones"
  | .valueNotText => "a value is not valid UTF-8"
  | .malformedNumber => "a value is no number of the wanted range"
  | .unexpectedValue => "a flag takes no value"
  | .unknownCommand => "unknown command"
  | .missingCommand => "a command is missing"
  | .nothingGiven | .helpRequested => "commands: hash, compare, search"
  | .versionRequested => "video fingerprints"

end CommandLine

def SettingsError.message : SettingsError → String
  | .usage e => e.message
  | .config group fault => group.message ++ ": " ++ fault.message

def SettingsError.exitCode : SettingsError → Nat
  | .usage e => e.exitCode
  | .config .. => Application.failureCode

namespace Application

/-- Runs what the words of a command line ask for and gives the exit code. -/
def start {m : Type → Type} [Monad m] (host : Host m) (words : List FilePath) :
    m Nat := do
  match Settings.ofWords words with
  | .ok s => run host s
  | .error e =>
    host.complain e.message
    return e.exitCode

end Application

end VideoFingerprint
