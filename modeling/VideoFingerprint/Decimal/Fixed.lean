import VideoFingerprint.Number.Binary64
import VideoFingerprint.Decimal.Layout

/-!
Numbers with a fixed count of decimals. The exact value of the double is rounded to the nearest
multiple of the last place, a tie to the even digit; the sign stays even when all digits are
zero.
-/

namespace VideoFingerprint.Decimal

open Binary64

/-- `|x|` in units of the last of `places` decimals. -/
def lastPlaceUnits (places : Nat) (x : Float) : Nat :=
  divHalfEven (magnitude x * Nat.pow 10 places) unit

def fixedSize (places : Nat) (x : Float) : List Char :=
  if x.isInf then ['i', 'n', 'f'] else pointed (digitsOf (lastPlaceUnits places x)) places

def fixed (places : Nat) (x : Float) : String :=
  if x.isNaN then "NaN"
  else String.ofList (if isNegative x then '-' :: fixedSize places x else fixedSize places x)

/-- A number with `places` decimals that always shows its sign. -/
def fixedSigned (places : Nat) (x : Float) : String :=
  if x.isNaN then "NaN"
  else String.ofList ((if isNegative x then '-' else '+') :: fixedSize places x)

def padLeft (width : Nat) (text : String) : String :=
  "".pushn ' ' (width - text.length) ++ text

end VideoFingerprint.Decimal
