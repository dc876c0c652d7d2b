/-!
Exact view of a double. Every finite double is a whole multiple of the smallest subnormal `2 ^
-1074`, so its size is kept as one natural number, the *magnitude*, and rounding, comparing and
printing become arithmetic on naturals. The magnitude grows strictly with the bit pattern of a
non-negative double, which is why the neighbours of a double are the patterns one below and one
above it.
-/

namespace VideoFingerprint.Binary64

/-- The magnitude of `1`: the number of smallest subnormals in it. -/
def unit : Nat := 1 <<< 1074

/-- The bit pattern of positive infinity; the patterns of finite non-negative doubles are
the smaller ones. -/
def infinityPattern : Nat := 0x7FF0000000000000

def nanPattern : Nat := 0x7FF8000000000000

def signPattern : Nat := 0x8000000000000000

/-- The bit pattern of the smallest normal double, which is also its magnitude. -/
def smallestNormal : Nat := 0x10000000000000

def pattern (x : Float) : Nat := x.toBits.toNat % signPattern

/-- The sign bit, which also tells `-0` from `0`. -/
def isNegative (x : Float) : Bool := signPattern ≤ x.toBits.toNat

/-- The magnitude of the non-negative double with pattern `b`. The formula goes on past the
largest finite double, to the values that an unbounded exponent would have. -/
def patternMagnitude (b : Nat) : Nat :=
  if b < smallestNormal then b
  else (smallestNormal + b % smallestNormal) <<< (b / smallestNormal - 1)

/-- The magnitude of a finite double: `|x| = magnitude x / unit`. -/
def magnitude (x : Float) : Nat := patternMagnitude (pattern x)

def ofPattern (negative : Bool) (b : Nat) : Float :=
  Float.ofBits (UInt64.ofNat (if negative then signPattern + b else b))

/-! ### Rounding quotients -/

/-- `num / den` rounded to the nearest whole number, a tie to the even neighbour. -/
def divHalfEven (num den : Nat) : Nat :=
  let q := num / den
  let twice := 2 * (num % den)
  if twice < den then q
  else if den < twice then q + 1
  else q + q % 2

/-- `num / den` rounded to the nearest whole number, a tie upwards. -/
def divHalfUp (num den : Nat) : Nat := (2 * num + den) / (2 * den)

/-- The pattern of the double nearest to `num / den` smallest subnormals, a tie to the even
pattern. Quotients too large for a finite double give infinity. -/
def nearestPattern (num den : Nat) : Nat :=
  let shift := Nat.log2 (num / den) - 52
  min infinityPattern (shift * smallestNormal + divHalfEven num (den <<< shift))

def ofQuotient (negative : Bool) (num den : Nat) : Float :=
  ofPattern negative (nearestPattern (num * unit) den)

/-- The double of a magnitude, rounded if it needs more than 53 bits. -/
def ofMagnitude (negative : Bool) (n : Nat) : Float :=
  ofPattern negative (nearestPattern n 1)

/-! ### Whole numbers -/

/-- The whole number nearest to `|x|`, a half counting as up. -/
def wholeHalfUp (x : Float) : Nat := divHalfUp (magnitude x) unit

/-- The nearest whole number, a half going away from zero; the sign is kept, also of zero.
Infinities and values that are not numbers stay as they are. -/
def roundHalfAway (x : Float) : Float :=
  if x.isFinite then ofMagnitude (isNegative x) (wholeHalfUp x * unit) else x

def floor (x : Float) : Float :=
  if x.isFinite then
    let whole := magnitude x / unit
    if magnitude x % unit = 0 then x
    else if isNegative x then ofMagnitude true ((whole + 1) * unit)
    else ofMagnitude false (whole * unit)
  else x

/-! ### Sorting -/

/-- The place of a double in the order that sorts every bit pattern, from its sign and its
pattern without the sign: negative values by falling size, `-0` before `0`, infinities around
the numbers, and outside of them the values that are not numbers. -/
def place (negative : Bool) (b : Nat) : Int := if negative then - (b : Int) - 1 else (b : Int)

/-- The place of a double in sorted order. The sign of a value that is not a
number is not known. -/
def sortKey (x : Float) : Int := place (isNegative x) (pattern x)

def sortsBefore (x y : Float) : Bool := decide (sortKey x ≤ sortKey y)

@[simp] theorem sortsBefore_refl (x : Float) : sortsBefore x x = true := by
  simp [sortsBefore]

theorem sortsBefore_total (x y : Float) : (sortsBefore x y || sortsBefore y x) = true := by
  simp only [sortsBefore, Bool.or_eq_true, decide_eq_true_eq]
  omega

theorem sortsBefore_trans {x y z : Float} (hxy : sortsBefore x y = true)
    (hyz : sortsBefore y z = true) :
    sortsBefore x z = true := by
  simp only [sortsBefore, decide_eq_true_eq] at *
  omega

end VideoFingerprint.Binary64
