import VideoFingerprint.FilePath
import VideoFingerprint.Video.Tool

/-!
What the application asks of the machine it runs on. Everything it does to files, programs and
streams goes through a `Host`, whose operations are actions of some monad; the application
itself only decides what to ask for.
-/

namespace VideoFingerprint

/-- How grave a logged message is. -/
inductive LogLevel
  | error
  | warning
  | info
deriving DecidableEq

/-- The operations of a machine. Failures of input and output come as texts. -/
structure Host (m : Type → Type) where
  /-- Reads a whole file. -/
  readFile : FilePath → m (Except String ByteArray)
  /-- Makes a text the content of a file, which is created if need be. -/
  writeFile : FilePath → String → m (Except String Unit)
  isDirectory : FilePath → m Bool
  /-- The files anywhere below a directory, in any order, by the names on the way to them; a
  failure stands for what could not be looked at. -/
  filesBelow : FilePath → m (List (Except String (List FilePath)))
  run : ToolRunner m
  /-- What the reader of JSON finds wrong with a text. -/
  explain : String → String
  /-- Writes to the output. -/
  print : String → m (Except String Unit)
  log : LogLevel → String → m Unit
  /-- Tells the user why nothing was done. -/
  complain : String → m Unit
  /-- The number of processors, at least one. -/
  processors : Nat

end VideoFingerprint
