import VideoFingerprint.Text.Blank

/-!
Taking texts apart. The pieces between separators are determined by having no separator in them
and by joining to the text; a text with a separator in its middle falls apart there. Trimming
looks at nothing but the blanks on both sides, so a carriage return at the end of a line is one
more blank there.
-/

namespace VideoFingerprint.Text

/-! ### Pieces between separators -/

theorem intercalate_append_cons {α : Type} {a : α} (pieces : List (List α)) (piece : List α)
    (rest : List (List α)) :
    [a].intercalate (pieces ++ piece :: rest) =
      (pieces.flatMap fun p => p ++ [a]) ++ [a].intercalate (piece :: rest) := by
  induction pieces with
  | nil => rfl
  | cons first pieces ih =>
      obtain ⟨second, others, hcons⟩ : ∃ second others, pieces ++ piece :: rest =
        second :: others :=
        List.exists_cons_of_ne_nil (by simp)
      rw [List.cons_append, hcons, List.intercalate_cons_cons, ← hcons, ih, List.flatMap_cons,
        List.append_assoc, List.append_assoc, List.append_assoc]

section Pieces

variable {α : Type} [DecidableEq α] {a : α} {cs : List α}

theorem splitOn_cons_self (cs : List α) : (a :: cs).splitOn a = [] :: cs.splitOn a :=
  List.splitOn_append_cons_self [] cs

theorem splitOn_cons_of_ne {c : α} (hc : c ≠ a) {piece : List α} {pieces : List (List α)}
    (h : cs.splitOn a = piece :: pieces) : (c :: cs).splitOn a = (c :: piece) :: pieces := by
  rw [List.splitOn, List.splitOnP_cons_eq_if_modifyHead, if_neg (by simpa using hc)]
  rw [List.splitOn] at h
  rw [h, List.modifyHead_cons]

theorem exists_splitOn_eq_cons (a : α) (cs : List α) :
    ∃ piece pieces, cs.splitOn a = piece :: pieces :=
  List.exists_cons_of_ne_nil (List.splitOn_ne_nil a cs)

theorem notMem_of_mem_splitOn {piece : List α} (h : piece ∈ cs.splitOn a) : a ∉ piece := by
  induction cs generalizing piece with
  | nil =>
      rw [List.splitOn_nil, List.mem_singleton] at h
      simp [h]
  | cons c cs ih =>
      obtain ⟨first, rest, hpieces⟩ := exists_splitOn_eq_cons a cs
      rw [hpieces] at ih
      by_cases hc : c = a
      · subst hc
        rw [splitOn_cons_self, hpieces] at h
        rcases List.mem_cons.1 h with rfl | h
        · exact List.not_mem_nil
        · exact ih h
      · rw [splitOn_cons_of_ne hc hpieces] at h
        rcases List.mem_cons.1 h with rfl | h
        · exact List.not_mem_cons_of_ne_of_not_mem (Ne.symm hc) (ih List.mem_cons_self)
        · exact ih (List.mem_cons_of_mem first h)

theorem splitOn_eq_iff {pieces : List (List α)} (hne : pieces ≠ []) :
    cs.splitOn a = pieces ↔ [a].intercalate pieces = cs ∧ ∀ piece ∈ pieces, a ∉ piece := by
  constructor
  · rintro rfl
    exact ⟨List.intercalate_splitOn a, fun piece hpiece => notMem_of_mem_splitOn hpiece⟩
  · rintro ⟨rfl, hpieces⟩
    exact List.splitOn_intercalate a hpieces hne

theorem length_splitOn (a : α) (cs : List α) : (cs.splitOn a).length = cs.count a + 1 := by
  induction cs with
  | nil => rfl
  | cons c cs ih =>
      by_cases hc : c = a
      · subst hc
        rw [splitOn_cons_self, List.length_cons, ih, List.count_cons_self]
      · obtain ⟨first, rest, hpieces⟩ := exists_splitOn_eq_cons a cs
        rw [hpieces] at ih
        rw [splitOn_cons_of_ne hc hpieces, List.count_cons_of_ne hc, ← ih]
        rfl

/-- Pieces that each have a separator after them stand in front of the pieces of the rest. -/
theorem splitOn_flatMap_append {pieces : List (List α)} (h : ∀ piece ∈ pieces, a ∉ piece)
    (cs : List α) :
    ((pieces.flatMap fun piece => piece ++ [a]) ++ cs).splitOn a = pieces ++ cs.splitOn a := by
  induction pieces with
  | nil => rfl
  | cons piece pieces ih =>
      rw [List.flatMap_cons, List.append_assoc, List.append_assoc, List.singleton_append,
        List.splitOn_append_cons_self_of_not_mem (h piece List.mem_cons_self),
        ih fun p hp => h p (List.mem_cons_of_mem piece hp), List.cons_append]

theorem count_flatMap {pieces : List (List α)} (h : ∀ piece ∈ pieces, a ∉ piece) :
    (pieces.flatMap fun piece => piece ++ [a]).count a = pieces.length := by
  have hsplit := splitOn_flatMap_append h []
  rw [List.append_nil, List.splitOn_nil] at hsplit
  have hlength := length_splitOn a (pieces.flatMap fun piece => piece ++ [a])
  rw [hsplit, List.length_append, List.length_singleton] at hlength
  omega

theorem splitOn_eq_singleton (h : a ∉ cs) : cs.splitOn a = [cs] :=
  (splitOn_eq_iff (List.cons_ne_nil cs [])).2 ⟨List.intercalate_singleton, by simpa using h⟩

/-- Two texts one after the other have one piece in common, in which the last piece of the
first text goes on. -/
theorem splitOn_append {ds last first : List α} {pieces rest : List (List α)}
    (hcs : cs.splitOn a = pieces ++ [last]) (hds : ds.splitOn a = first :: rest) :
    (cs ++ ds).splitOn a = pieces ++ (last ++ first) :: rest := by
  obtain ⟨hjoin, hfree⟩ := (splitOn_eq_iff (by simp)).1 hcs
  obtain ⟨hjoin', hfree'⟩ := (splitOn_eq_iff (by simp)).1 hds
  rw [intercalate_append_cons, List.intercalate_singleton] at hjoin
  have hmiddle : [a].intercalate ((last ++ first) :: rest) = last ++ ds := by
    rw [← hjoin']
    cases rest with
    | nil => simp
    | cons second rest => simp [List.intercalate_cons_cons]
  rw [splitOn_eq_iff (by simp), intercalate_append_cons, hmiddle, ← hjoin, List.append_assoc]
  refine ⟨rfl, fun piece hpiece => ?_⟩
  rcases List.mem_append.1 hpiece with hpiece | hpiece
  · exact hfree piece (List.mem_append_left _ hpiece)
  · rcases List.mem_cons.1 hpiece with rfl | hpiece
    · rw [List.mem_append, not_or]
      exact ⟨hfree last (List.mem_append_right _ List.mem_cons_self),
        hfree' first List.mem_cons_self⟩
    · exact hfree' piece (List.mem_cons_of_mem first hpiece)

theorem exists_splitOn_eq_concat (a : α) (cs : List α) :
    ∃ pieces last, cs.splitOn a = pieces ++ [last] := by
  obtain ⟨pieces, last, hsplit⟩ :=
    (cs.splitOn a).eq_nil_or_concat.resolve_left (List.splitOn_ne_nil a cs)
  exact ⟨pieces, last, by rw [hsplit, List.concat_eq_append]⟩

/-- The text around one of its pieces: the pieces before it with their separators, and
what follows it. -/
theorem exists_around_piece {pieces rest : List (List α)} {piece : List α}
    (h : cs.splitOn a = pieces ++ piece :: rest) :
    ∃ after, cs = (pieces.flatMap fun p => p ++ [a]) ++ piece ++ after ∧
      (after = [] ∨ after.head? = some a) := by
  obtain ⟨hjoin, -⟩ := (splitOn_eq_iff (by simp)).1 h
  rw [intercalate_append_cons] at hjoin
  cases rest with
  | nil =>
      rw [List.intercalate_singleton] at hjoin
      exact ⟨[], by rw [← hjoin, List.append_nil], .inl rfl⟩
  | cons next rest =>
      rw [List.intercalate_cons_cons] at hjoin
      exact ⟨[a] ++ [a].intercalate (next :: rest), by
        rw [← hjoin, List.append_assoc, List.append_assoc], .inr rfl⟩

end Pieces

/-! ### Blanks -/

theorem dropWhile_isBlank_eq_nil_iff {cs : List Char} :
    cs.dropWhile isBlank = [] ↔ cs.all isBlank = true := by
  induction cs with
  | nil => simp
  | cons c cs ih => cases hc : isBlank c <;> simp [hc, ih]

theorem all_isBlank_dropWhile (cs : List Char) :
    (cs.dropWhile isBlank).all isBlank = cs.all isBlank := by
  conv => rhs; rw [← List.takeWhile_append_dropWhile (p := isBlank) (l := cs), List.all_append,
    List.all_takeWhile]
  rw [Bool.true_and]

/-- A text is blank when trimming leaves nothing of it. -/
theorem trim_eq_nil_iff {cs : List Char} : trim cs = [] ↔ cs.all isBlank = true := by
  rw [trim, List.reverse_eq_nil_iff, dropWhile_isBlank_eq_nil_iff, List.all_reverse,
    all_isBlank_dropWhile]

theorem trim_append_of_blank {blanks : List Char} (h : blanks.all isBlank = true)
    (cs : List Char) :
    trim (cs ++ blanks) = trim cs := by
  rw [trim, List.dropWhile_append]
  split
  · rename_i hempty
    rw [List.isEmpty_iff] at hempty
    rw [dropWhile_isBlank_eq_nil_iff.2 h, trim, hempty]
  · have hreverse : ∀ c ∈ blanks.reverse, isBlank c = true :=
      fun c hc => List.all_eq_true.1 h c (List.mem_reverse.1 hc)
    rw [List.reverse_append, List.dropWhile_append_of_pos hreverse]
    rfl

theorem trim_blank_append {blanks : List Char} (h : blanks.all isBlank = true)
    (cs : List Char) :
    trim (blanks ++ cs) = trim cs := by
  rw [trim, List.dropWhile_append_of_pos (List.all_eq_true.1 h)]
  rfl

/-- Blanks beside nothing but blanks, on one side at least, are trimmed away. -/
theorem trim_append_append {left blanks right : List Char} (h : blanks.all isBlank = true)
    (hside : left.all isBlank = true ∨ right.all isBlank = true) :
    trim (left ++ blanks ++ right) = trim (left ++ right) := by
  rcases hside with hleft | hright
  · rw [List.append_assoc, trim_blank_append hleft, trim_blank_append h,
      trim_blank_append hleft]
  · rw [trim_append_of_blank hright, trim_append_of_blank h, trim_append_of_blank hright]

end VideoFingerprint.Text
