import VideoFingerprint.FilePath

/-!
Files and directories in memory, below a working directory. A path is followed name by name;
`.` stays where it is and `..` goes one step up. Above the working directory there are
directories too, of whose content nothing is known. Names and whole paths are limited in
length.
-/

namespace VideoFingerprint

/-- A file with its content, or a directory. -/
inductive DiskEntry
  | file (content : ByteArray)
  | directory

/-- Why a file cannot be read or written. -/
inductive DiskFault
  | notFound
  | notDirectory
  | isDirectory
  | nameTooLong
deriving DecidableEq

def DiskFault.message : DiskFault → String
  | .notFound => "No such file or directory (os error 2)"
  | .notDirectory => "Not a directory (os error 20)"
  | .isDirectory => "Is a directory (os error 21)"
  | .nameTooLong => "File name too long (os error 36)"

/-- The names on the way to a file or directory, from the working directory on. A place above
the working directory starts with as many `..` as there are steps up. -/
abbrev Place := List FilePath

/-- Entries with their places. The directories on the way to an entry need no
entry of their own. -/
structure Disk where
  entries : List (Place × DiskEntry)

namespace Disk

/-! ### Places -/

def dot : FilePath := "."

def dotDot : FilePath := ".."

/-- The working directory or one above it. -/
def isAbove (place : Place) : Bool := place.all (· = dotDot)

def isDirectoryAt (d : Disk) (place : Place) : Bool :=
  isAbove place || d.entries.any fun (p, entry) =>
    match entry with
    | .directory => place.isPrefixOf p
    | .file _ => place.isPrefixOf p && p.length != place.length

def fileAt? (d : Disk) (place : Place) : Option ByteArray :=
  d.entries.findSome? fun (p, entry) =>
    match entry with
    | .file content => if p = place then some content else none
    | .directory => none

def enter (d : Disk) (place : Place) : Except DiskFault Place :=
  if d.isDirectoryAt place then .ok place
  else .error (if (d.fileAt? place).isSome then .notDirectory else .notFound)

def nameLimit : Nat := 255

/-- The place of a name in a directory, where there need not be anything. -/
def child (place : Place) (name : FilePath) : Except DiskFault Place :=
  if name = dot then .ok place
  else if name = dotDot then .ok (if isAbove place then place ++ [name] else place.dropLast)
  else if nameLimit < name.bytes.length then .error .nameTooLong
  else .ok (place ++ [name])

def follow (d : Disk) (place : Place) : List FilePath → Except DiskFault Place
  | [] => .ok place
  | name :: rest => do d.follow (← child (← d.enter place) name) rest

/-! ### Paths -/

def pathLimit : Nat := 4095

def isAbsolute (path : FilePath) : Bool := path.bytes.head? = some FilePath.slash

def endsInSlash (path : FilePath) : Bool := path.bytes.getLast? = some FilePath.slash

def namesOf (path : FilePath) : List FilePath :=
  ((path.bytes.splitOn FilePath.slash).filter (· ≠ [])).map FilePath.mk

/-- Where a path starts: an absolute one above the working directory. -/
def startOf (path : FilePath) : Except DiskFault Place :=
  if pathLimit < path.bytes.length then .error .nameTooLong
  else if path.bytes = [] then .error .notFound
  else .ok (if isAbsolute path then [dotDot] else [])

/-- The place a path leads to, where there need not be anything. A slash at the end leads into
the directory before it. -/
def placeOf (d : Disk) (path : FilePath) : Except DiskFault Place := do
  d.follow (← startOf path) (namesOf path ++ if endsInSlash path then [dot] else [])

def isDirectory (d : Disk) (path : FilePath) : Bool :=
  (d.placeOf path).toOption.any d.isDirectoryAt

def read (d : Disk) (path : FilePath) : Except DiskFault ByteArray := do
  let place ← d.placeOf path
  if d.isDirectoryAt place then .error .isDirectory
  else match d.fileAt? place with
    | some content => .ok content
    | none => .error .notFound

/-- The disk with a file at a place, in the stead of one that was there. -/
def put (d : Disk) (place : Place) (content : ByteArray) : Disk :=
  if (d.fileAt? place).isSome then
    ⟨d.entries.map fun (p, entry) => if p = place then (p, .file content) else (p, entry)⟩
  else ⟨d.entries ++ [(place, .file content)]⟩

/-- The disk after writing a file. A file can be created in a directory only, and not under a
path that names a directory by its form: one that ends in `.`, in `..` or in a slash. -/
def write (d : Disk) (path : FilePath) (content : ByteArray) : Except DiskFault Disk := do
  let parent ← d.enter (← d.follow (← startOf path) (namesOf path).dropLast)
  match (namesOf path).getLast? with
  | none => .error .isDirectory
  | some name =>
    if name = dot ∨ name = dotDot ∨ endsInSlash path then .error .isDirectory
    else
      let place ← child parent name
      if d.isDirectoryAt place then .error .isDirectory else .ok (d.put place content)

/-- The names on the way from a directory to each file below it. -/
def filesBelow (d : Disk) (path : FilePath) : List (List FilePath) :=
  match d.placeOf path with
  | .error _ => []
  | .ok place => d.entries.filterMap fun (p, entry) =>
    match entry with
    | .file _ => if place.isPrefixOf p then some (p.drop place.length) else none
    | .directory => none

end Disk

end VideoFingerprint
