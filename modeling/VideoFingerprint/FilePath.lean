import VideoFingerprint.Text.Lossy

/-!
Paths of files. A path is a sequence of bytes. Usually these are the bytes of a text, but they
need not be; then the path can be shown with replacements only. The words of a command line,
which may be paths, are such sequences too.
-/

namespace VideoFingerprint

/-- A path, or one of the names in it. -/
structure FilePath where
  bytes : List UInt8
deriving DecidableEq

namespace FilePath

def ofText (text : String) : FilePath := ⟨text.toUTF8.data.toList⟩

instance : Coe String FilePath := ⟨ofText⟩

/-- The text of which a path is made, if there is one. -/
def text? (p : FilePath) : Option String := String.fromUTF8? ⟨p.bytes.toArray⟩

theorem text?_ofText (text : String) : (ofText text).text? = some text :=
  dif_pos text.isValidUTF8

/-- A path as it is shown. -/
def display (p : FilePath) : String := p.text?.getD (Text.showBytes p.bytes)

@[simp] theorem display_ofText (text : String) : (ofText text).display = text := by
  rw [display, text?_ofText, Option.getD_some]

/-- Names and paths are ordered by their bytes. -/
def key (p : FilePath) : List Nat := p.bytes.map UInt8.toNat

def slash : UInt8 := 0x2F

def point : UInt8 := 0x2E

/-- The path to a file, by the names on the way to it from a directory. -/
def below (root : FilePath) (names : List FilePath) : FilePath :=
  let start := if root.bytes.getLast? = some slash then root.bytes else root.bytes ++ [slash]
  ⟨start ++ [slash].intercalate (names.map bytes)⟩

/-- The extension of a name: what follows its last point, unless that is its first byte. -/
def extension? (name : FilePath) : Option FilePath :=
  let bytes := name.bytes.reverse
  match bytes.dropWhile (· ≠ point) with
  | [] | [_] => none
  | _ => some ⟨(bytes.takeWhile (· ≠ point)).reverse⟩

end FilePath

end VideoFingerprint
