import VideoFingerprint.Frame.Fourier

/-!
The scheme of each length. Short lengths have one of their own. Any other length starts from a
short one, its base, which is widened to tables by one factor after the other until the whole
length is reached.
-/

namespace VideoFingerprint.Scheme

def six : Scheme 6 := .coprime (.pairs 3) (.pairs 2)

def nine : Scheme 9 := .table (.pairs 3) (.pairs 3) false

/-- The scheme of a short length, if it has one of its own. -/
def short? : (n : Nat) → Option (Scheme n)
  | 1 => some .one
  | 2 => some (.pairs 2)
  | 3 => some (.pairs 3)
  | 4 => some .four
  | 5 => some (.pairs 5)
  | 6 => some six
  | 7 => some (.pairs 7)
  | 8 => some (.table (.pairs 2) .four true)
  | 9 => some nine
  | 11 => some (.pairs 11)
  | 12 => some (.table .four (.pairs 3) false)
  | 13 => some (.pairs 13)
  | 16 => some (.table .four .four true)
  | 17 => some (.pairs 17)
  | 18 => some (.table six (.pairs 3) false)
  | 19 => some (.pairs 19)
  | 23 => some (.pairs 23)
  | 24 => some (.table .four six true)
  | 27 => some (.table (.pairs 3) nine false)
  | 29 => some (.pairs 29)
  | 31 => some (.pairs 31)
  | 36 => some (.table six six true)
  | _ => none

/-- The scheme of a short length; any other length is taken as a whole. -/
def ofShort (n : Nat) : Scheme n := (short? n).getD (.pairs n)

/-- Divides a number by the factors in turn, each as often as it goes. -/
def factors : List Nat → Nat → List Nat
  | [], _ => []
  | p :: ps, n =>
    if 1 < p ∧ 0 < n ∧ n % p = 0 then p :: factors (p :: ps) (n / p) else factors ps n
termination_by ps n => (ps.length, n)
decreasing_by
  · have hn : n / p < n := Nat.div_lt_self (by omega) (by omega)
    simp only [List.length_cons]
    exact Prod.Lex.right _ hn
  · simp only [List.length_cons]
    exact Prod.Lex.left _ _ (by omega)

def product (ns : List Nat) : Nat := ns.foldl (· * ·) 1

/-- The length from which a longer one is built up: what is left of it without its prime
factors up to 11, or its part in two and three when that is a short length above four, or
its largest prime factor. Lengths of twos and threes alone start from a short one that
leaves few factors. -/
def base (n : Nat) : Nat :=
  let smooth := product (factors [2, 3] n)
  let rest := n / product (factors [11, 7, 5, 3, 2] n)
  if 1 < rest then rest
  else if 4 < smooth ∧ (short? smooth).isSome then smooth
  else if smooth % 27 = 0 then if smooth % 2 = 0 then 18 else 27
  else if smooth % 72 = 0 then 24
  else if smooth % 48 = 0 then 12
  else if n % 11 = 0 then 11
  else if n % 7 = 0 then 7
  else 5

/-- The factors by which a base is widened: a single one where it is short enough, or else the
factors from 11 down to 5 before the rest. -/
def widenings (n : Nat) : List Nat :=
  if [2, 3, 4, 5, 6, 7, 8, 9, 12, 16].contains n then [n]
  else factors [11, 7, 5, 12, 9, 8, 6, 4, 3, 2] n

def ofLength (n : Nat) : Scheme n :=
  match short? n with
  | some s => s
  | none =>
    let start : Σ m, Scheme m := ⟨base n, ofShort (base n)⟩
    let widen (s : Σ m, Scheme m) (r : Nat) : Σ m, Scheme m :=
      ⟨s.1 * r, .table (ofShort r) s.2 true⟩
    let whole := (widenings (n / base n)).foldl widen start
    if h : whole.1 = n then h ▸ whole.2 else .pairs n

end VideoFingerprint.Scheme
