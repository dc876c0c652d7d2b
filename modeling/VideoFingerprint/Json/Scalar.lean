import VideoFingerprint.Json.Token
import VideoFingerprint.Number.Binary64

/-!
The worth of written numbers and strings. Whole numbers that fit 64 bits are exact. All others
become doubles by a short route that is not always the nearest double: digits are taken into a
64-bit number as long as they fit, and that number is then multiplied or divided by a power of
ten.
-/

namespace VideoFingerprint.Json

open Text

/-- The worth of a number: a natural number, a negative whole number, or a double. -/
inductive Number
  | natural (n : Nat)
  | negative (n : Nat)
  | float (x : Float)

/-- Takes digits into a number as long as it fits 64 bits; gives the number and how many
digits were taken. -/
def takeDigits : (significand : Nat) → List Char → Nat × Nat
  | n, [] => (n, 0)
  | n, c :: cs =>
    if UInt64.size ≤ 10 * n + digitValue c then (n, 0)
    else
      let (m, taken) := takeDigits (10 * n + digitValue c) cs
      (m, taken + 1)

/-- The largest exponent of an exact table of powers of ten. -/
def maxPower : Nat := 308

def powerOfTen (n : Nat) : Float := Binary64.ofQuotient false (Nat.pow 10 n) 1

/-- A double divided by `10 ^ e`, in steps of the largest power. -/
def scaleDown (x : Float) (e : Nat) : Float :=
  if e ≤ maxPower then x / powerOfTen e
  else if x == 0 then x
  else scaleDown (x / powerOfTen maxPower) (e - maxPower)
termination_by e
decreasing_by simp only [maxPower] at *; omega

def scaled? (x : Float) (e : Int) : Option Float :=
  if e < 0 then some (scaleDown x e.natAbs)
  else if e.toNat ≤ maxPower then
    let y := x * powerOfTen e.toNat
    if y.isInf then none else some y
  else if x == 0 then some x
  else none

/-- The double of a significand and an exponent of ten; none where it is too large. Exponents
beyond 31 bits are decided by their sign alone. -/
def floatOf? (negative : Bool) (significand : Nat) (shift : Int)
    (exponent : Option (Bool × List Char)) :
    Option Float :=
  let size? := match exponent with
    | none => scaled? (Float.ofNat significand) shift
    | some (down, ds) =>
      if UInt32.size / 2 ≤ naturalOfHalves ds then
        if significand ≠ 0 ∧ ¬ down then none else some 0
      else
        let size : Int := naturalOfHalves ds
        scaled? (Float.ofNat significand) (if down then shift - size else shift + size)
  size?.map fun x => if negative then -x else x

/-- The worth of a number; none where it is too large for a double. -/
def NumberText.worth? (n : NumberText) : Option Number :=
  let (whole, taken) := takeDigits 0 n.whole
  let dropped : Int := n.whole.length - taken
  match n.fraction, n.exponent, dropped with
  | none, none, 0 =>
    if ¬ n.negative then some (.natural whole)
    else if 0 < whole ∧ whole ≤ UInt64.size / 2 then some (.negative whole)
    else some (.float (-(Float.ofNat whole)))
  | fraction, exponent, _ =>
    let (significand, used) := takeDigits whole (fraction.getD [])
    (floatOf? n.negative significand (dropped - used) exponent).map .float

/-- A number as a double; whole numbers are rounded to the nearest one. -/
def Number.toFloat : Number → Float
  | .natural n => Float.ofNat n
  | .negative n => -(Float.ofNat n)
  | .float x => x

/-- The characters of a written string. A unit of the upper surrogates must be followed by one
of the lower ones, and these stand nowhere else. -/
def decodeString : List StringPiece → Option (List Char)
  | [] => some []
  | .char c :: rest => (decodeString rest).map (c :: ·)
  | .unit high :: .unit low :: rest =>
    if 0xD800 ≤ high ∧ high < 0xDC00 then
      if 0xDC00 ≤ low ∧ low < 0xE000 then
        (decodeString rest).map
          (Char.ofNat (0x10000 + (high - 0xD800) * 0x400 + (low - 0xDC00)) :: ·)
      else none
    else if 0xDC00 ≤ high ∧ high < 0xE000 then none
    else (decodeString (.unit low :: rest)).map (Char.ofNat high :: ·)
  | .unit n :: rest =>
    if 0xD800 ≤ n ∧ n < 0xE000 then none else (decodeString rest).map (Char.ofNat n :: ·)

end VideoFingerprint.Json
