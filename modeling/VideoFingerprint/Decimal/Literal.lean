import VideoFingerprint.Number.Scalar
import VideoFingerprint.Decimal.Layout
import VideoFingerprint.Text.Digits

/-!
Reading written numbers. A literal is an optional sign followed by one of the words `inf`,
`infinity` and `nan` in any case, or by digits with an optional point and an optional exponent
of ten; at least one digit stands before the exponent. The value is the double nearest to the
decimal that is read. An exponent is read digit by digit until it reaches 65536; digits after
that are passed over.
-/

namespace VideoFingerprint.Decimal

open Text

/-- Why a text is not a number literal. -/
inductive LiteralError
  | empty
  | malformed
deriving DecidableEq, Repr

def LiteralError.message : LiteralError → String
  | .empty => "cannot parse float from empty string"
  | .malformed => "invalid float literal"

/-! ### The value of a decimal -/

/-- The bit pattern of the double nearest to a decimal. Far outside the range of doubles the
exact value is not needed: with an exponent above 400 a decimal is infinite, and below `10 ^
-400` it is zero. A decimal of `size` binary digits is below `10 ^ (0.302 * size)`, apart
from its exponent. -/
def nearestPattern (d : Decimal) : Nat :=
  let size := Nat.log2 d.digits + 1
  if d.digits = 0 then 0
  else if 400 < d.exponent then Binary64.infinityPattern
  else if 302 * (size : Int) + 1000 * d.exponent < -400000 then 0
  else Binary64.nearestPattern (d.digits * Nat.pow 10 d.exponent.toNat * Binary64.unit)
    (Nat.pow 10 (-d.exponent).toNat)

/-- What a literal denotes: a sign, and the bit pattern of a double without its sign. Here a
value that is not a number has a sign too, which is lost in computing with doubles. -/
structure Literal where
  negative : Bool
  pattern : Nat
deriving DecidableEq, Repr

namespace Literal

def toFloat (l : Literal) : Float := Binary64.ofPattern l.negative l.pattern

/-- The median of literals. They are sorted by all of their bits, so that a negative literal
which is not a number comes before all numbers and a positive one after them. -/
def median (ls : List Literal) : Float :=
  let place (l : Literal) : Int := Binary64.place l.negative l.pattern
  Scalar.middle ((ls.mergeSort fun l m => decide (place l ≤ place m)).map toFloat)

end Literal

/-! ### The grammar -/

/-- The size of an exponent. Once it has reached 65536 its further digits are passed over. -/
def exponentSize (ds : List Char) : Nat :=
  ds.foldl (fun n c => if n < 65536 then 10 * n + digitValue c else n) 0

/-- The exponent part of a literal, up to its end. -/
def exponent? : List Char → Option Int
  | [] => some 0
  | c :: cs =>
    if c = 'e' ∨ c = 'E' then
      let (negative, ds) := splitSign cs
      if ds.isEmpty ∨ ¬ ds.all Char.isDigit then none
      else some (if negative then -(exponentSize ds : Int) else exponentSize ds)
    else none

/-- A literal without a sign and without words, up to its end. -/
def unsigned? (cs : List Char) : Option Decimal :=
  let (whole, rest) := splitDigits cs
  let (fraction, rest) := match rest with
    | '.' :: rest => splitDigits rest
    | _ => ([], rest)
  if whole.isEmpty ∧ fraction.isEmpty then none
  else (exponent? rest).map fun e => ⟨naturalOfHalves (whole ++ fraction), e - fraction.length⟩

def Literal.parse (text : String) : Except LiteralError Literal :=
  if text.isEmpty then .error .empty
  else
    let (negative, cs) := splitSign text.toList
    let word := String.ofList (cs.map Char.toLower)
    if word = "nan" then .ok ⟨negative, Binary64.nanPattern⟩
    else if word = "inf" ∨ word = "infinity" then .ok ⟨negative, Binary64.infinityPattern⟩
    else match unsigned? cs with
      | some d => .ok ⟨negative, d.nearestPattern⟩
      | none => .error .malformed

def parseLiteral (text : String) : Except LiteralError Float :=
  (Literal.parse text).map Literal.toFloat

/-- A number literal, without the reason when it is none. -/
def literal? (text : String) : Option Float := (parseLiteral text).toOption

end VideoFingerprint.Decimal
