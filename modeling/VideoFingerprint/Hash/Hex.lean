import VideoFingerprint.Hash.Basic
import VideoFingerprint.Text.Hex
import VideoFingerprint.Text.Quoted

/-!
The written form of a hash: 64 hexadecimal digits, most significant first. Digits are written
in lower case and read in either case.
-/

namespace VideoFingerprint

/-- Why a text is not a hash. -/
inductive HashParseError
  | length (bytes : Nat)
  | digit (c : Char)
deriving DecidableEq

def HashParseError.message : HashParseError → String
  | .length bytes => "expected 64 hex digits, found " ++ toString bytes
  | .digit c => "invalid hex digit " ++ Text.quotedChar c

namespace Hash

def hexLength : Nat := 64

/-- The digits of a hash, most significant first. -/
def hexDigits (h : Hash) : List Char :=
  (List.range hexLength).map fun i =>
    Text.hexDigit (h.value.extractLsb' (4 * (hexLength - 1 - i)) 4).toNat

def toHex (h : Hash) : String := String.ofList h.hexDigits

/-- Reads a written hash. A character that is no digit is reported before a wrong length, which
is counted in bytes. -/
def parse (text : String) : Except HashParseError Hash :=
  match text.toList.find? fun c => (Text.hexValue? c).isNone with
  | some c => .error (.digit c)
  | none =>
    if text.utf8ByteSize = hexLength then .ok ⟨BitVec.ofNat 256 (Text.numberOfHex text.toList)⟩
    else .error (.length text.utf8ByteSize)

@[simp] theorem length_hexDigits (h : Hash) : h.hexDigits.length = hexLength := by
  simp [hexDigits]

end Hash

end VideoFingerprint
