/-!
Hexadecimal digits, written in lower case and read in either case.
-/

namespace VideoFingerprint.Text

def hexDigit (n : Nat) : Char :=
  if n < 10 then Char.ofNat ('0'.toNat + n) else Char.ofNat ('a'.toNat + (n - 10))

def hexValue? (c : Char) : Option Nat :=
  if '0' ≤ c ∧ c ≤ '9' then some (c.toNat - '0'.toNat)
  else if 'a' ≤ c ∧ c ≤ 'f' then some (c.toNat - 'a'.toNat + 10)
  else if 'A' ≤ c ∧ c ≤ 'F' then some (c.toNat - 'A'.toNat + 10)
  else none

/-- The number that hexadecimal digits write; other characters count as zero. -/
def numberOfHex (cs : List Char) : Nat := cs.foldl (fun n c => 16 * n + (hexValue? c).getD 0) 0

def hexDigits (n : Nat) : List Char := Nat.toDigits 16 n

/-- The lowest digits of a number, most significant first. -/
def fixedHex : (count : Nat) → Nat → List Char
  | 0, _ => []
  | count + 1, n => fixedHex count (n / 16) ++ [hexDigit (n % 16)]

theorem hexValue?_hexDigit : ∀ n < 16, hexValue? (hexDigit n) = some n := by decide

end VideoFingerprint.Text
