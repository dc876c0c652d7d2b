import VideoFingerprint.Frame.Smoothing

/-!
Work on the lines of a vector. Writing to a line changes its places and nothing else, so work
on lines that do not meet can be told apart: each line ends up as if the others had not been
touched.
-/

namespace VideoFingerprint

variable {α : Type} {n size : Nat}

/-! ### Places of a vector -/

theorem get_eq_getElem (v : Vector α n) (i : Fin n) : v.get i = getElem v i.val i.isLt := rfl

@[simp] theorem get_ofFn (f : Fin n → α) (i : Fin n) : (Vector.ofFn f).get i = f i := by
  rw [get_eq_getElem, Vector.getElem_ofFn]

@[simp] theorem get_map {β : Type} (f : α → β) (v : Vector α n) (i : Fin n) :
    (v.map f).get i = f (v.get i) := by
  rw [get_eq_getElem, get_eq_getElem, Vector.getElem_map]

theorem get_set_self (v : Vector α n) (i : Fin n) (a : α) : (v.set i a i.isLt).get i = a := by
  rw [get_eq_getElem, Vector.getElem_set_self]

theorem get_set_of_ne (v : Vector α n) {i j : Fin n} (a : α) (h : i ≠ j) :
    (v.set i a i.isLt).get j = v.get j := by
  rw [get_eq_getElem, get_eq_getElem, Vector.getElem_set_ne _ _ fun heq => h (Fin.ext heq)]

theorem ext_get {v w : Vector α n} (h : ∀ i, v.get i = w.get i) : v = w :=
  Vector.ext fun i hi => h ⟨i, hi⟩

namespace Line

variable {l : Line size}

theorem place_lt (l : Line size) (i : Fin l.count) : l.start + i * l.step < size :=
  l.inside i i.isLt

def place (l : Line size) (i : Fin l.count) : Fin size := ⟨l.start + i * l.step, l.place_lt i⟩

theorem place_injective : Function.Injective l.place := by
  intro i j h
  have hstep : i.val * l.step = j.val * l.step := Nat.add_left_cancel (Fin.val_eq_of_eq h)
  exact Fin.ext (Nat.eq_of_mul_eq_mul_right l.step_pos hstep)

/-! ### Writing -/

def writeUpTo (l : Line size) (values : Vector α l.count) (data : Vector α size) (n : Nat)
    (hn : n ≤ l.count) :
    Vector α size :=
  Nat.fold n (fun i h data =>
    data.set (l.place ⟨i, Nat.lt_of_lt_of_le h hn⟩) (values.get ⟨i, Nat.lt_of_lt_of_le h hn⟩))
    data

theorem get_writeUpTo (values : Vector α l.count) (data : Vector α size) (n : Nat)
    (hn : n ≤ l.count) :
    (∀ i : Fin l.count, i.val < n →
      (l.writeUpTo values data n hn).get (l.place i) = values.get i) ∧
      ∀ k, (∀ i : Fin l.count, i.val < n → k ≠ l.place i) →
        (l.writeUpTo values data n hn).get k = data.get k := by
  induction n with
  | zero => exact ⟨fun i hi => absurd hi (Nat.not_lt_zero _), fun k _ => rfl⟩
  | succ n ih =>
      obtain ⟨hwritten, hkept⟩ := ih (Nat.le_of_succ_le hn)
      have hstep : l.writeUpTo values data (n + 1) hn =
          (l.writeUpTo values data n (Nat.le_of_succ_le hn)).set (l.place ⟨n, hn⟩)
            (values.get ⟨n, hn⟩) :=
        Nat.fold_succ ..
      rw [hstep]
      constructor
      · intro i hi
        by_cases hlast : i = ⟨n, hn⟩
        · rw [hlast, get_set_self]
        · have hlt : i.val < n :=
            Nat.lt_of_le_of_ne (Nat.le_of_lt_succ hi) fun h => hlast (Fin.ext h)
          rw [get_set_of_ne _ _ fun h => hlast (place_injective h.symm)]
          exact hwritten i hlt
      · intro k hk
        rw [get_set_of_ne _ _ (hk ⟨n, hn⟩ (Nat.lt_succ_self n)).symm]
        exact hkept k fun i hi => hk i (Nat.lt_succ_of_lt hi)

@[simp] theorem get_write_place (values : Vector α l.count) (data : Vector α size)
    (i : Fin l.count) :
    (l.write values data).get (l.place i) = values.get i :=
  (get_writeUpTo values data l.count (Nat.le_refl _)).1 i i.isLt

theorem get_write_of_ne (values : Vector α l.count) (data : Vector α size) {k : Fin size}
    (hk : ∀ i, k ≠ l.place i) : (l.write values data).get k = data.get k :=
  (get_writeUpTo values data l.count (Nat.le_refl _)).2 k fun i _ => hk i

/-! ### Work on lines that do not meet -/

/-- Some work on a vector only reads and changes a line: the values on it become those that `f`
makes of them. -/
structure WorksOn (l : Line size) (f : (Fin l.count → α) → Fin l.count → α)
    (work : Vector α size → Vector α size) :
    Prop where
  on_line : ∀ data i, (work data).get (l.place i) = f (fun j => data.get (l.place j)) i
  off_line : ∀ data k, (∀ i, k ≠ l.place i) → (work data).get k = data.get k

theorem worksOn_write (f : Vector α l.count → Vector α l.count) :
    l.WorksOn (fun values i => (f (Vector.ofFn values)).get i) fun data =>
      l.write (f (l.read data)) data where
  on_line data i := by
    rw [get_write_place]
    rfl
  off_line data k hk := get_write_of_ne _ data hk

/-- Work on lines that do not meet, one after the other: on each line it is the work on the
vector as it was in the beginning, since the lines before it do not touch its places. -/
theorem get_fold_work {count : Nat} {line : (j : Nat) → j < count → Line size}
    {f : (j : Nat) → (h : j < count) → (Fin (line j h).count → α) → Fin (line j h).count → α}
    {work : (j : Nat) → j < count → Vector α size → Vector α size}
    (hworks : ∀ j h, (line j h).WorksOn (f j h) (work j h))
    (hapart : ∀ j h i j' h' i', (line j h).place i = (line j' h').place i' → j = j')
    (data : Vector α size) :
    (∀ j h i, (Nat.fold count work data).get ((line j h).place i) =
      f j h (fun i => data.get ((line j h).place i)) i) ∧
    ∀ k, (∀ j h i, k ≠ (line j h).place i) →
      (Nat.fold count work data).get k = data.get k := by
  induction count with
  | zero => exact ⟨fun j h => absurd h (Nat.not_lt_zero j), fun k _ => rfl⟩
  | succ n ih =>
      obtain ⟨hon, hoff⟩ := ih (fun j h => hworks j (Nat.lt_succ_of_lt h))
        (fun j h i j' h' i' => hapart j (Nat.lt_succ_of_lt h) i j' (Nat.lt_succ_of_lt h') i')
      have hn : n < n + 1 := Nat.lt_succ_self n
      rw [Nat.fold_succ]
      generalize hbefore : Nat.fold n (fun j h => work j (Nat.lt_succ_of_lt h)) data =
        before at hon hoff ⊢
      constructor
      · intro j h i
        rcases Nat.lt_succ_iff_lt_or_eq.1 h with hlt | rfl
        · rw [(hworks n hn).off_line before _ fun i' heq =>
            Nat.ne_of_lt hlt (hapart _ _ _ _ _ _ heq)]
          exact hon j hlt i
        · rw [(hworks j hn).on_line before i]
          congr 1
          funext i'
          exact hoff _ fun j' h' i'' heq => Nat.ne_of_gt h' (hapart _ _ _ _ _ _ heq)
      · intro k hk
        rw [(hworks n hn).off_line before k (hk n hn)]
        exact hoff k fun j h => hk j (Nat.lt_succ_of_lt h)

end Line

end VideoFingerprint
