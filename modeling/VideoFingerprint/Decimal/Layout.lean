/-!
How a decimal number is laid out as text. A decimal is a whole number of units of a power of
ten; each output format of the project chooses one `Layout`, a record of its decisions, and no
other code knows them.
-/

namespace VideoFingerprint

/-- The number `digits * 10 ^ exponent`. -/
structure Decimal where
  digits : Nat
  exponent : Int
deriving DecidableEq, Repr

namespace Decimal

/-- The digits of a natural number, most significant first. -/
def digitsOf (n : Nat) : List Char := Nat.toDigits 10 n

/-- Digits with a point `places` from the right, and zeros in front where there are
too few digits. -/
def pointed (ds : List Char) (places : Nat) : List Char :=
  if places = 0 then ds
  else
    let padded := List.replicate (places + 1 - ds.length) '0' ++ ds
    padded.take (padded.length - places) ++ '.' :: padded.drop (padded.length - places)

def positional (d : Decimal) : List Char :=
  let ds := digitsOf d.digits
  if 0 ≤ d.exponent then ds ++ List.replicate d.exponent.toNat '0'
  else pointed ds (-d.exponent).toNat

/-- The exponent when there is one digit before the point. -/
def leadingExponent (d : Decimal) : Int := d.exponent + (digitsOf d.digits).length - 1

/-- Which of two equally near shortest decimals is taken. -/
inductive Tie
  | up
  | even
deriving DecidableEq, Repr

/-- The decisions of a number format. Whole numbers may end in `.0`; numbers whose leading
exponent lies outside `positionalRange` are written with an exponent, where a positive one
may carry a sign. -/
structure Layout where
  tie : Tie
  pointZero : Bool
  positionalRange : Option (Int × Int)
  plusSign : Bool

def Layout.write (l : Layout) (d : Decimal) : List Char :=
  let e := d.leadingExponent
  if l.positionalRange.all fun (low, high) => low ≤ e ∧ e ≤ high then
    let text := d.positional
    if l.pointZero ∧ 0 ≤ d.exponent then text ++ ['.', '0'] else text
  else
    let ds := digitsOf d.digits
    let fraction := ds.drop 1
    let sign := if e < 0 then ['-'] else if l.plusSign then ['+'] else []
    ds.take 1 ++ (if fraction.isEmpty then [] else '.' :: fraction) ++ 'e' :: sign ++
      digitsOf e.natAbs

end Decimal

end VideoFingerprint
