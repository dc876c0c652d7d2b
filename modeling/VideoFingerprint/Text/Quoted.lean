import VideoFingerprint.Text.Hex
import VideoFingerprint.Text.Invisible

/-!
A single character in quotes, as error messages show it.
-/

namespace VideoFingerprint.Text

/-- A character between quotes: what would end or blur the quotation is escaped, and a
character without a mark of its own is shown by its number. -/
def quotedBody (c : Char) : List Char :=
  if c = '\t' then ['\\', 't']
  else if c = '\n' then ['\\', 'n']
  else if c = '\r' then ['\\', 'r']
  else if c = '\x00' then ['\\', '0']
  else if c = '\x27' ∨ c = '\\' then ['\\', c]
  else if isInvisible c then ['\\', 'u', '\x7b'] ++ hexDigits c.toNat ++ ['\x7d']
  else [c]

/-- A character in single quotes. -/
def quotedChar (c : Char) : String := String.ofList ('\x27' :: quotedBody c ++ ['\x27'])

end VideoFingerprint.Text
