import VideoFingerprint.Text.Digits

/-!
Reading whole numbers of a bounded range. The digits are added one at a time, so of two faults
the one that is met first is reported.
-/

namespace VideoFingerprint.Text

/-- Why a text is not a whole number of the wanted range. -/
inductive IntegerError
  | empty
  | invalidDigit
  | tooLarge
deriving DecidableEq, Repr

def IntegerError.message : IntegerError → String
  | .empty => "cannot parse integer from empty string"
  | .invalidDigit => "invalid digit found in string"
  | .tooLarge => "number too large to fit in target type"

/-- Digits read on to `n`, up to `limit`. -/
def readDigits (limit : Nat) : Nat → List Char → Except IntegerError Nat
  | n, [] => .ok n
  | n, c :: cs =>
    if ¬ c.isDigit then .error .invalidDigit
    else if limit < 10 * n + digitValue c then .error .tooLarge
    else readDigits limit (10 * n + digitValue c) cs

/-- A natural number up to `limit`, with an optional plus sign. -/
def parseNatural (limit : Nat) (text : String) : Except IntegerError Nat :=
  match text.toList with
  | [] => .error .empty
  | '+' :: c :: cs => readDigits limit 0 (c :: cs)
  | cs => readDigits limit 0 cs

def maxU32 : Nat := UInt32.size - 1

def maxU64 : Nat := UInt64.size - 1

def int64? (text : String) : Option Int :=
  match text.toList with
  | '-' :: c :: cs => ((readDigits (UInt64.size / 2) 0 (c :: cs)).toOption).map fun n =>
      -(n : Int)
  | _ => ((parseNatural (UInt64.size / 2 - 1) text).toOption).map Int.ofNat

end VideoFingerprint.Text
