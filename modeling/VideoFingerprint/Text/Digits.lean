/-!
Decimal digits of written numbers.
-/

namespace VideoFingerprint.Text

def digitValue (c : Char) : Nat := c.toNat - '0'.toNat

/-- The natural number that digits write, most significant first. -/
def naturalOf (ds : List Char) : Nat := ds.foldl (fun n c => 10 * n + digitValue c) 0

@[simp] theorem naturalOf_nil : naturalOf [] = 0 := rfl

/-- Digits read after a number has been read already. -/
theorem foldl_digits (es : List Char) (m : Nat) :
    es.foldl (fun n c => 10 * n + digitValue c) m =
      m * Nat.pow 10 es.length + naturalOf es := by
  induction es generalizing m with
  | nil => simp [naturalOf]
  | cons c es ih =>
      have hp : Nat.pow 10 (es.length + 1) = Nat.pow 10 es.length * 10 := rfl
      rw [naturalOf, List.foldl_cons, List.foldl_cons, ih, ih (10 * 0 + digitValue c),
        List.length_cons, hp, Nat.mul_zero, Nat.zero_add, Nat.add_mul, Nat.add_assoc,
        Nat.mul_comm 10 m, Nat.mul_assoc, Nat.mul_comm 10]

theorem naturalOf_append (ds es : List Char) :
    naturalOf (ds ++ es) = naturalOf ds * Nat.pow 10 es.length + naturalOf es := by
  rw [naturalOf, List.foldl_append, foldl_digits]
  rfl

/-- The natural number that digits write, for long texts: each half of the digits is read on
its own, so that few of the multiplications are of large numbers. -/
def naturalOfHalves (ds : List Char) : Nat :=
  if ds.length < 32 then naturalOf ds
  else
    let low := ds.length / 2
    let high := ds.length - low
    naturalOfHalves (ds.take high) * Nat.pow 10 low + naturalOfHalves (ds.drop high)
termination_by ds.length
decreasing_by all_goals simp only [List.length_take, List.length_drop]; omega

theorem naturalOfHalves_eq (ds : List Char) : naturalOfHalves ds = naturalOf ds := by
  fun_induction naturalOfHalves ds with
  | case1 => rfl
  | case2 ds h low high hTake hDrop =>
      have hd : (ds.drop high).length = low := by rw [List.length_drop]; omega
      rw [hTake, hDrop, ← hd, ← naturalOf_append, List.take_append_drop]

/-- The digits at the start of a text, and the text after them. -/
def splitDigits (cs : List Char) : List Char × List Char :=
  (cs.takeWhile Char.isDigit, cs.dropWhile Char.isDigit)

theorem splitDigits_append (cs : List Char) : (splitDigits cs).1 ++ (splitDigits cs).2 = cs :=
  List.takeWhile_append_dropWhile

theorem isDigit_of_mem_splitDigits {cs : List Char} {c : Char} (h : c ∈ (splitDigits cs).1) :
    c.isDigit = true := by
  unfold splitDigits at h
  induction cs with
  | nil => simp at h
  | cons d ds ih =>
      rw [List.takeWhile_cons] at h
      split at h
      · rcases List.mem_cons.1 h with rfl | hd
        · assumption
        · exact ih hd
      · simp at h

/-- A sign in front of a number, and the text after it; without a sign the number
is not negative. -/
def splitSign : List Char → Bool × List Char
  | '-' :: cs => (true, cs)
  | '+' :: cs => (false, cs)
  | cs => (false, cs)

end VideoFingerprint.Text
