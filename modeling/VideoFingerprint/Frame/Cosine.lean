import VideoFingerprint.Frame.Fourier.Choice

/-!
The cosine transform of rows and of square grids: value `k` of a transformed row of length `n`
is the sum of `x[i] * cos ((2 i + 1) k π / (2 n))`. The order of operations is fixed for each
length, and with it how far a value that is not finite spreads. Rows whose length is a power of
two are split into a half and two quarters, so that rows without change give exact zeros; other
rows go through a Fourier transform, apart from those of three values, whose sums are written
out.
-/

namespace VideoFingerprint

namespace Cosine

variable {α : Type} [Scalar α]

def triple (angles : Angles α) (x : Vector α 3) : Vector α 3 :=
  #v[x[0] + x[2] + x[1], (x[0] - x[2]) * angles.cos 1 12,
    (x[0] + x[2]) / Scalar.ofNat 2 - x[1]]

/-- The values of a row with those at even places first, in rising order, and those at odd
places after them, in falling order. -/
def folded {n : Nat} (x : Vector α n) : Vector α n :=
  Vector.ofFn fun q => if _ : 2 * q.val < n then x[2 * q.val] else x[2 * n - 1 - 2 * q.val]

/-- The transform of a row through the Fourier transform of the folded row: value `k` is the
real part of the one there, turned by `k π / (2 n)`. -/
def fourier (angles : Angles α) {n : Nat} (x : Vector α n) : Vector α n :=
  let spectrum := (Scheme.ofLength n).transform angles ((folded x).map Phasor.ofReal)
  Vector.ofFn fun k => (spectrum.get k * angles.turn k (4 * n)).re

theorem two_pow_add_two (k : Nat) : Nat.pow 2 (k + 2) = 4 * Nat.pow 2 k := by
  have : Nat.pow 2 (k + 2) = Nat.pow 2 k * 2 * 2 := rfl
  omega

/-- The transform of a row whose length is a power of two. With `q` a quarter of the length,
the sums of opposite values carry the even frequencies; their differences, turned by `(2 i + 1)
π / (2 n)`, give two rows of length `q`, and the odd frequencies are sums and differences of
the transforms of those. -/
def split (angles : Angles α) : (k : Nat) → Vector α (Nat.pow 2 k) → Vector α (Nat.pow 2 k)
  | 0, x => x
  | 1, x => #v[x[0] + x[1], (x[0] - x[1]) * Scalar.sqrt (Scalar.ofNat 1 / Scalar.ofNat 2)]
  | k + 2, x =>
    have hn : Nat.pow 2 (k + 2) = 4 * Nat.pow 2 k := two_pow_add_two k
    have hh : Nat.pow 2 (k + 1) = 2 * Nat.pow 2 k := Nat.mul_comm (Nat.pow 2 k) 2
    let q := Nat.pow 2 k
    let low (i : Fin q) : α := x[i.val] - x[4 * q - 1 - i.val]
    let high (i : Fin q) : α := x[2 * q - 1 - i.val] - x[2 * q + i.val]
    let c (i : Fin q) : α := angles.cos (2 * i.val + 1) (16 * q)
    let s (i : Fin q) : α := angles.sin (2 * i.val + 1) (16 * q)
    let sums := split angles (k + 1) (Vector.ofFn fun i => x[4 * q - 1 - i.val] + x[i.val])
    let turned := split angles k (Vector.ofFn fun i => low i * c i + high i * s i)
    let crossed := split angles k (Vector.ofFn fun j =>
      let i : Fin q := j.rev
      let v := high i * c i - low i * s i
      if i.val % 2 = 0 then v else -v)
    Vector.ofFn fun m =>
      if _ : m.val % 2 = 0 then sums[m.val / 2]
      else if _ : m.val = 1 then turned[0]
      else if _ : m.val = 4 * q - 1 then -crossed[0]
      else if _ : m.val % 4 = 3 then
        let i := (m.val + 1) / 4
        turned[i] + (if (i + q) % 2 = 0 then -crossed[q - i] else crossed[q - i])
      else
        let i := m.val / 4
        turned[i] - (if (i + q) % 2 = 0 then -crossed[q - i] else crossed[q - i])

def row (angles : Angles α) {n : Nat} (x : Vector α n) : Vector α n :=
  if h : n = 3 then (triple angles (x.cast h)).cast h.symm
  else if h : 1 < n ∧ Nat.pow 2 n.log2 = n then
    (split angles n.log2 (x.cast h.2.symm)).cast h.2
  else fourier angles x

def transpose {n : Nat} (m : Grid α n) : Grid α n :=
  Vector.ofFn fun y => Vector.ofFn fun x => (m.get x).get y

def grid {n : Nat} (transformRow : Vector α n → Vector α n) (m : Grid α n) : Grid α n :=
  transpose ((transpose (m.map transformRow)).map transformRow)

end Cosine

/-- The side of a square of the given area, if there is one and it is not empty. -/
def squareSide? (area : Nat) : Option Nat :=
  (List.range (area + 1)).find? fun n => 0 < n ∧ n * n = area

/-- The square grid with the given values, row by row, if their number is the
area of a square. -/
def squareGrid? {α : Type} (values : Array α) : Option (Σ n, Grid α n) :=
  (squareSide? values.size).bind fun n =>
    if h : values.size = n * n then
      let all : Vector α (n * n) := ⟨values, h⟩
      some ⟨n, Vector.ofFn fun y => Vector.ofFn fun x =>
        all.get ⟨y.val * n + x.val, Plane.index_lt x.isLt y.isLt⟩⟩
    else none

end VideoFingerprint
