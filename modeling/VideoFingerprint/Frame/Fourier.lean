import VideoFingerprint.Frame.Plane

/-!
The discrete Fourier transform of rows of any length: value `k` of a transformed row of length
`n` is the sum of `x[i]` turned clockwise by the angle `2 π i k / n`. A `Scheme` says how a
length is taken apart into shorter ones. All schemes of one length give the same values in
exact arithmetic; they differ in how far a value that is not finite spreads, since the product
of an infinity and a zero is not a number.
-/

namespace VideoFingerprint

/-- The cosine and the sine of `2 π i / n`. -/
structure Angles (α : Type) where
  cos : (i n : Nat) → α
  sin : (i n : Nat) → α

/-- A complex number. -/
structure Phasor (α : Type) where
  re : α
  im : α

namespace Phasor

variable {α : Type} [Scalar α]

instance : Add (Phasor α) := ⟨fun u v => ⟨u.re + v.re, u.im + v.im⟩⟩

instance : Sub (Phasor α) := ⟨fun u v => ⟨u.re - v.re, u.im - v.im⟩⟩

instance : Mul (Phasor α) :=
  ⟨fun u v => ⟨u.re * v.re - u.im * v.im, u.re * v.im + u.im * v.re⟩⟩

def ofReal (x : α) : Phasor α := ⟨x, Scalar.ofNat 0⟩

/-- A quarter turn clockwise, which multiplies nothing. -/
def quarterTurn (u : Phasor α) : Phasor α := ⟨u.im, -u.re⟩

end Phasor

namespace Angles

variable {α : Type} [Scalar α]

/-- The angle `2 π i / n` as a double. -/
def angle (i n : Nat) : Float := 3.141592653589793 * 2 / Float.ofNat n * Float.ofNat i

def ofFloat : Angles Float := ⟨fun i n => (angle i n).cos, fun i n => (angle i n).sin⟩

/-- The number that turns another one clockwise by `2 π i / n` when multiplied with it. -/
def turn (angles : Angles α) (i n : Nat) : Phasor α := ⟨angles.cos i n, -angles.sin i n⟩

end Angles

/-- How the transform of a row is taken apart. -/
inductive Scheme : Nat → Type
  /-- One value, turned by the angle zero. -/
  | one : Scheme 1
  /-- Four values, by sums, differences and quarter turns. -/
  | four : Scheme 4
  /-- All values at once, where those at the same distance from the first one, round the row,
  are taken together: their sum goes with the cosine and their difference with the sine. -/
  | pairs (n : Nat) : Scheme n
  /-- Rows of two lengths without a common divisor, with no turning in between. -/
  | coprime {a b : Nat} (first : Scheme a) (second : Scheme b) : Scheme (a * b)
  /-- A table with the values row by row. Its columns are transformed, then the values below
  the top row are turned by the product of their row and column, then its rows are
  transformed. In the left column that angle is zero, and `turnLeft` says whether the
  multiplication is made there. -/
  | table {width height : Nat} (columns : Scheme height) (rows : Scheme width)
      (turnLeft : Bool) :
      Scheme (width * height)

namespace Scheme

variable {α : Type} [Scalar α]

/-- Value `k` of the transform by pairs. A sine that is zero takes no part. -/
def pairsAt (angles : Angles α) {n : Nat} (x : Vector (Phasor α) n) (k : Fin n) : Phasor α :=
  have := k.isLt
  let half := (n - 1) / 2
  let cosines := List.ofFn fun j : Fin half =>
    let c := angles.cos ((j.val + 1) * k % n) n
    let sum := x[j.val + 1] + x[n - 1 - j.val]
    (⟨sum.re * c, sum.im * c⟩ : Phasor α)
  let sines := (List.ofFn fun j : Fin half =>
    if 2 * ((j.val + 1) * k) % n = 0 then []
    else
      let s := angles.sin ((j.val + 1) * k % n) n
      let turned := (x[j.val + 1] - x[n - 1 - j.val]).quarterTurn
      [(⟨turned.re * s, turned.im * s⟩ : Phasor α)]).flatten
  let middle := x[n / 2]
  let opposite := if n % 2 = 1 then []
      else [if k.val % 2 = 0 then middle else ⟨-middle.re, -middle.im⟩]
  (cosines ++ opposite ++ sines).foldl (· + ·) x[0]

/-- The Fourier transform of a row, taken apart by a scheme. -/
def transform (angles : Angles α) :
    {n : Nat} → Scheme n → Vector (Phasor α) n → Vector (Phasor α) n
  | _, .one, x => #v[angles.turn 0 1 * x[0]]
  | _, .four, x =>
    let even := x[0] + x[2]
    let odd := x[1] + x[3]
    let evenGap := x[0] - x[2]
    let oddGap := (x[1] - x[3]).quarterTurn
    #v[even + odd, evenGap + oddGap, even - odd, evenGap - oddGap]
  | _, .pairs _, x => Vector.ofFn fun k => pairsAt angles x k
  | _, @coprime a b first second, x =>
    let firsts : Vector (Vector (Phasor α) a) b := Vector.ofFn fun j =>
      first.transform angles (Vector.ofFn fun i =>
        x.get ⟨(i.val * b + j.val * a) % (a * b), Nat.mod_lt _ (Nat.mul_pos i.pos j.pos)⟩)
    let seconds : Vector (Vector (Phasor α) b) a := Vector.ofFn fun i =>
      second.transform angles (Vector.ofFn fun j => firsts[j][i])
    Vector.ofFn fun k =>
      (seconds.get ⟨k % a, Nat.mod_lt _ (Nat.pos_of_mul_pos_right k.pos)⟩).get
        ⟨k % b, Nat.mod_lt _ (Nat.pos_of_mul_pos_left k.pos)⟩
  | _, @table width height columns rows turnLeft, x =>
    let turned : Vector (Vector (Phasor α) height) width := Vector.ofFn fun c =>
      let column := columns.transform angles (Vector.ofFn fun r =>
        x.get ⟨r.val * width + c.val, Plane.index_lt c.isLt r.isLt⟩)
      Vector.ofFn fun r =>
        if r.val = 0 ∨ (c.val = 0 ∧ ¬ turnLeft) then column[r]
        else angles.turn (r.val * c.val) (width * height) * column[r]
    let spectra : Vector (Vector (Phasor α) width) height :=
      Vector.ofFn fun r => rows.transform angles
      (Vector.ofFn fun c => turned[c][r])
    Vector.ofFn fun k =>
      (spectra.get ⟨k % height, Nat.mod_lt _ (Nat.pos_of_mul_pos_left k.pos)⟩).get
        ⟨k / height, Nat.div_lt_of_lt_mul (Nat.mul_comm width height ▸ k.isLt)⟩

end Scheme

end VideoFingerprint
