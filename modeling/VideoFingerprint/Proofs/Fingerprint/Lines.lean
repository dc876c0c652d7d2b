import VideoFingerprint.Fingerprint.Format
import VideoFingerprint.Proofs.Fingerprint.Order
import VideoFingerprint.Proofs.Outcome
import VideoFingerprint.Proofs.Text.Splitting

/-!
Reading line by line. A line that is not blank gives one feature, and all that a line needs to
know of the lines before it is the last feature that they gave. So reading lines one after the
other is reading the first ones and going on from there, lines that are read are a sequence of
features in order, and the first line at fault is found without looking at what follows it.
Carriage returns at the ends of lines and what comes after the last line feed make no
difference, so that the lines of a text may be taken to be all pieces between its line feeds.
-/

namespace VideoFingerprint.Fingerprint

open Outcome

def IsInked (line : List Char) : Bool := !line.all Text.isBlank

variable {previous : Option Feature} {line : Nat} {ls : List (List Char)} {fs : List Feature}
  {f g : Feature}

/-! ### One line -/

/-- A line gives a feature when it has four fields, each of which is read. -/
theorem decodeLine_eq_ok_iff_fields {line : List Char} {f : Feature} :
    decodeLine line = .ok f ↔
      ∃ frame quality hash time, line.splitOn ',' = [frame, quality, hash, time] ∧
      readFrame (Text.trim frame) = .ok f.frame ∧
      readQuality (Text.trim quality) = .ok f.quality ∧
      readHash (Text.trim hash) = .ok f.hash ∧ readTime (Text.trim time) = .ok f.time := by
  constructor
  · intro h
    unfold decodeLine at h
    split at h
    · rename_i hfields
      obtain ⟨frame, _, hsplit, rfl, hthree⟩ := List.map_eq_cons_iff.1 hfields
      obtain ⟨quality, _, rfl, rfl, htwo⟩ := List.map_eq_cons_iff.1 hthree
      obtain ⟨hash, _, rfl, rfl, hone⟩ := List.map_eq_cons_iff.1 htwo
      obtain ⟨time, _, rfl, rfl, hnone⟩ := List.map_eq_cons_iff.1 hone
      rw [List.map_eq_nil_iff.1 hnone] at hsplit
      simp only [bind_eq_ok_iff, pure, Except.pure, Except.ok.injEq] at h
      obtain ⟨n, hframe, q, hquality, v, hhash, t, htime, rfl⟩ := h
      exact ⟨frame, quality, hash, time, hsplit, hframe, hquality, hhash, htime⟩
    · cases h
  · rintro ⟨frame, quality, hash, time, hsplit, hframe, hquality, hhash, htime⟩
    rw [decodeLine, hsplit]
    simp only [List.map_cons, List.map_nil, hframe, hquality, hhash, htime]
    rfl

/-- Blanks between two parts of a line make no difference if a field begins or ends there. -/
theorem decodeLine_append_append {left blanks right first last : List Char}
    {before after : List (List Char)} (h : blanks.all Text.isBlank = true)
    (hleft : left.splitOn ',' = before ++ [last]) (hright : right.splitOn ',' = first :: after)
    (hside : last.all Text.isBlank = true ∨ first.all Text.isBlank = true) :
    decodeLine (left ++ blanks ++ right) = decodeLine (left ++ right) := by
  have hblanks : blanks.splitOn ',' = [] ++ [blanks] := Text.splitOn_eq_singleton fun hcomma =>
    absurd (List.all_eq_true.1 h _ hcomma) (by decide)
  have hpadded : (left ++ blanks ++ right).splitOn ',' =
      before ++ (last ++ blanks ++ first) :: after :=
    Text.splitOn_append (Text.splitOn_append hleft hblanks) hright
  rw [decodeLine, decodeLine, hpadded, Text.splitOn_append hleft hright, List.map_append,
    List.map_append, List.map_cons, List.map_cons, Text.trim_append_append h hside]

theorem decodeLine_append_return (l : List Char) :
    decodeLine (l ++ ['\r']) = decodeLine l := by
  obtain ⟨before, last, hsplit⟩ := Text.exists_splitOn_eq_concat ',' l
  have hreturn : ['\r'].all Text.isBlank = true := by decide
  have hpadded := decodeLine_append_append hreturn hsplit (List.splitOn_nil ',') (.inr rfl)
  rwa [List.append_nil, List.append_nil] at hpadded

theorem isInked_append_return (l : List Char) : IsInked (l ++ ['\r']) = IsInked l := by
  have hblank : Text.isBlank '\r' = true := by decide
  simp [IsInked, hblank]

theorem readLines_cons_of_blank {l : List Char} (h : IsInked l = false)
    (previous : Option Feature) (line : Nat) (ls : List (List Char)) :
    readLines previous line (l :: ls) = readLines previous (line + 1) ls := by
  rw [readLines, if_pos (by simpa [IsInked] using h)]

theorem readLines_cons_of_error {l : List Char} (h : IsInked l = true) {fault : LineFault}
    (hl : decodeLine l = .error fault) (previous : Option Feature) (line : Nat)
    (ls : List (List Char)) :
    readLines previous line (l :: ls) = .error ⟨line, fault⟩ := by
  rw [readLines, if_neg (by simpa [IsInked] using h), hl]

theorem readLines_cons_of_not_follows {l : List Char} (h : IsInked l = true)
    (hl : decodeLine l = .ok g) (hfollows : ¬ f.Follows g) (line : Nat)
    (ls : List (List Char)) :
    readLines (some f) line (l :: ls) = .error ⟨line, .order f g⟩ := by
  obtain ⟨fault, hfault⟩ : ∃ fault, g.orderFault? 0 f = some fault :=
    Option.ne_none_iff_exists'.1 fun hnone =>
      hfollows (Feature.orderFault?_eq_none_iff.1 hnone)
  rw [readLines, if_neg (by simpa [IsInked] using h), hl]
  simp only [Option.bind_some, hfault, Option.map_some]

theorem readLines_cons_of_follows {l : List Char} (h : IsInked l = true)
    (hl : decodeLine l = .ok g) (hfollows : ∀ f ∈ previous, f.Follows g) (line : Nat)
    (ls : List (List Char)) :
    readLines previous line (l :: ls) = (readLines (some g) (line + 1) ls).map (g :: ·) := by
  have hnone : (previous.bind fun p => (g.orderFault? 0 p).map fun _ => p) = none := by
    cases previous with
    | none => rfl
    | some f => simp [Feature.orderFault?_eq_none_iff.2 (hfollows f rfl)]
  rw [readLines, if_neg (by simpa [IsInked] using h), hl]
  simp only [hnone]

/-- What a line can do: it is passed over, it is at fault whatever comes after it, or it gives
a feature that follows the one before. -/
theorem readLines_cons_cases (previous : Option Feature) (line : Nat) (l : List Char) :
    (IsInked l = false ∧ ∀ ls,
      readLines previous line (l :: ls) = readLines previous (line + 1) ls) ∨
      (IsInked l = true ∧ (∀ g, decodeLine l = .ok g → ∃ f ∈ previous, ¬ f.Follows g) ∧
        ∃ fault, ∀ ls, readLines previous line (l :: ls) = .error ⟨line, fault⟩) ∨
      (IsInked l = true ∧ ∃ g, decodeLine l = .ok g ∧ (∀ f ∈ previous, f.Follows g) ∧
        ∀ ls, readLines previous line (l :: ls) = (readLines (some g) (line + 1) ls).map
          (g :: ·)) := by
  cases hinked : IsInked l with
  | false => exact .inl ⟨rfl, readLines_cons_of_blank hinked previous line⟩
  | true =>
      right
      cases hl : decodeLine l with
      | error fault =>
          exact .inl ⟨rfl, by simp, fault, readLines_cons_of_error hinked hl previous line⟩
      | ok g =>
          by_cases hfollows : ∀ f ∈ previous, f.Follows g
          · exact .inr ⟨rfl, g, rfl, hfollows,
              readLines_cons_of_follows hinked hl hfollows line⟩
          · push Not at hfollows
            obtain ⟨f, hf, hnot⟩ := hfollows
            obtain rfl : previous = some f := hf
            refine .inl ⟨rfl, fun g' hg' => ⟨f, rfl, ?_⟩, _,
              readLines_cons_of_not_follows hinked hl hnot line⟩
            rwa [← Except.ok.inj hg']

/-! ### Lines one after the other -/

/-- Reading goes on after some lines with the last feature that they gave. -/
theorem readLines_append (previous : Option Feature) (line : Nat) (ls ms : List (List Char)) :
    readLines previous line (ls ++ ms) = (readLines previous line ls).bind fun fs =>
      (readLines (fs.getLast?.or previous) (line + ls.length) ms).map (fs ++ ·) := by
  induction ls generalizing previous line with
  | nil =>
      rw [readLines]
      cases h : readLines previous line ms <;> simp [h, Except.bind, Except.map]
  | cons l ls ih =>
      rw [List.cons_append, List.length_cons,
        show line + (ls.length + 1) = line + 1 + ls.length by omega]
      rcases readLines_cons_cases previous line l with
        ⟨-, hskip⟩ | ⟨-, -, fault, herror⟩ | ⟨-, g, -, -, hread⟩
      · rw [hskip, hskip, ih]
      · rw [herror, herror]
        rfl
      · rw [hread, hread, ih]
        cases readLines (some g) (line + 1) ls with
        | error e => rfl
        | ok fs =>
            have hlast : (g :: fs).getLast?.or previous = fs.getLast?.or (some g) := by
              rw [List.getLast?_cons, Option.some_or, Option.or_some]
            simp only [Except.bind, Except.map, hlast]
            cases readLines (fs.getLast?.or (some g)) (line + 1 + ls.length) ms <;> rfl

/-- Lines that are read give the features of those that are not blank, each of which follows
the one before. -/
theorem readLines_eq_ok_iff :
    readLines previous line ls = .ok fs ↔
      List.Forall₂ (fun l f => decodeLine l = .ok f) (ls.filter IsInked) fs ∧
        (previous.toList ++ fs).IsChain Feature.Follows := by
  induction ls generalizing previous line fs with
  | nil =>
      rw [readLines, List.filter_nil, List.forall₂_nil_left_iff, Except.ok.injEq, eq_comm,
        iff_self_and]
      rintro rfl
      cases previous <;> simp
  | cons l ls ih =>
      rcases readLines_cons_cases previous line l with
        ⟨hl, hskip⟩ | ⟨hl, hnone, fault, herror⟩ |
        ⟨hl, g, hg, hfollows, hread⟩
      · rw [hskip, ih, List.filter_cons_of_neg (by simp [hl])]
      · rw [herror, List.filter_cons_of_pos hl]
        refine iff_of_false (by simp) ?_
        rintro ⟨hforall, hchain⟩
        obtain ⟨g, tail, hg, -, rfl⟩ := List.forall₂_cons_left_iff.1 hforall
        obtain ⟨f, hf, hnot⟩ := hnone g hg
        obtain rfl : previous = some f := hf
        exact hnot (List.isChain_cons_cons.1 hchain).1
      · rw [hread, List.filter_cons_of_pos hl]
        constructor
        · intro h
          obtain ⟨tail, htail, rfl⟩ := map_eq_ok_iff.1 h
          obtain ⟨hforall, hchain⟩ := ih.1 htail
          refine ⟨.cons hg hforall, ?_⟩
          cases previous with
          | none => exact hchain
          | some f => exact List.isChain_cons_cons.2 ⟨hfollows f rfl, hchain⟩
        · rintro ⟨hforall, hchain⟩
          obtain ⟨g', tail, hg', hrest, rfl⟩ := List.forall₂_cons_left_iff.1 hforall
          obtain rfl : g = g' := Except.ok.inj (hg.symm.trans hg')
          have htail : ((some g).toList ++ tail).IsChain Feature.Follows :=
            hchain.right_of_append
          rw [ih.2 ⟨hrest, htail⟩]
          rfl

/-- Where the lines stand and which feature is before them matters only for the first feature
that they give. -/
theorem readLines_of_follows (h : readLines none line ls = .ok fs)
    (hfirst : ∀ f ∈ previous, ∀ g ∈ fs.head?, f.Follows g) (line' : Nat) :
    readLines previous line' ls = .ok fs := by
  obtain ⟨hlines, hchain⟩ := readLines_eq_ok_iff.1 h
  refine readLines_eq_ok_iff.2 ⟨hlines, ?_⟩
  cases previous with
  | none => exact hchain
  | some f => exact List.isChain_cons.2 ⟨hfirst f rfl, hchain⟩

/-- An error stands at a line that is not blank, after lines that are read, and stays whatever
comes after it. -/
theorem exists_of_readLines_eq_error {e : FormatError}
    (h : readLines previous line ls = .error e) :
    ∃ before l after, ls = before ++ l :: after ∧ e.line = line + before.length ∧
      IsInked l = true ∧
      (∃ fs, readLines previous line before = .ok fs) ∧
      ∀ rest, readLines previous line (before ++ l :: rest) = .error e := by
  induction ls generalizing previous line with
  | nil => cases h
  | cons l ls ih =>
      rcases readLines_cons_cases previous line l with
        ⟨hl, hskip⟩ | ⟨hl, -, fault, herror⟩ | ⟨hl, g, -, -, hread⟩
      · rw [hskip] at h
        obtain ⟨before, k, after, rfl, hline, hk, ⟨fs, hfs⟩, hstays⟩ := ih h
        refine ⟨l :: before, k, after, rfl, by rw [hline, List.length_cons]; omega, hk,
          ⟨fs, ?_⟩, fun rest => ?_⟩
        · rw [hskip, hfs]
        · rw [List.cons_append, hskip, hstays]
      · obtain rfl : FormatError.mk line fault = e :=
          Except.error.inj ((herror ls).symm.trans h)
        exact ⟨[], l, ls, rfl, rfl, hl, ⟨[], rfl⟩, herror⟩
      · rw [hread, map_eq_error_iff] at h
        obtain ⟨before, k, after, rfl, hline, hk, ⟨fs, hfs⟩, hstays⟩ := ih h
        refine ⟨l :: before, k, after, rfl, by rw [hline, List.length_cons]; omega, hk,
          ⟨g :: fs, ?_⟩, fun rest => ?_⟩
        · rw [hread, hfs]
          rfl
        · rw [List.cons_append, hread, hstays]
          rfl

/-- What is read of all lines begins with what is read of the first ones. -/
theorem exists_prefix_of_readLines_append {ms : List (List Char)}
    (h : readLines previous line (ls ++ ms) = .ok fs) :
    ∃ gs, readLines previous line ls = .ok gs ∧ gs <+: fs := by
  rw [readLines_append] at h
  cases hgs : readLines previous line ls with
  | error e =>
      rw [hgs] at h
      cases h
  | ok gs =>
      rw [hgs] at h
      obtain ⟨tail, -, rfl⟩ := map_eq_ok_iff.1 h
      exact ⟨gs, rfl, List.prefix_append gs tail⟩

/-! ### The first feature -/

theorem readLines_append_of_blank (hls : ∀ l ∈ ls, IsInked l = false) (ms : List (List Char)) :
    readLines previous line (ls ++ ms) = readLines previous (line + ls.length) ms := by
  induction ls generalizing line with
  | nil => rfl
  | cons l ls ih =>
      rw [List.cons_append, readLines_cons_of_blank (hls l List.mem_cons_self),
        ih fun k hk => hls k (List.mem_cons_of_mem l hk), List.length_cons, Nat.add_assoc,
        Nat.add_comm 1]

/-- The first feature comes from the first line that is not blank. -/
theorem exists_first_of_readLines (h : readLines none line ls = .ok (g :: fs)) :
    ∃ before l after, ls = before ++ l :: after ∧ (∀ k ∈ before, IsInked k = false) ∧
      IsInked l = true ∧
      decodeLine l = .ok g := by
  have hfirst := (readLines_eq_ok_iff.1 h).1
  obtain ⟨l, rest, hl, -, hfilter⟩ := List.forall₂_cons_right_iff.1 hfirst
  obtain ⟨before, after, rfl, hblank, hinked, -⟩ := List.filter_eq_cons_iff.1 hfilter
  exact ⟨before, l, after, rfl, fun k hk => by simpa using hblank k hk, hinked, hl⟩

/-! ### Ends of lines -/

/-- Lines that a reader cannot tell apart. -/
def ReadAlike (l m : List Char) : Prop := IsInked l = IsInked m ∧ decodeLine l = decodeLine m

theorem ReadAlike.refl (l : List Char) : ReadAlike l l := ⟨rfl, rfl⟩

theorem readAlike_append_return (l : List Char) : ReadAlike (l ++ ['\r']) l :=
  ⟨isInked_append_return l, decodeLine_append_return l⟩

theorem readLines_congr {ms : List (List Char)} (h : List.Forall₂ ReadAlike ls ms) :
    readLines previous line ls = readLines previous line ms := by
  induction h generalizing previous line with
  | nil => rfl
  | cons hlm _ ih =>
      obtain ⟨hinked, hdecode⟩ := hlm
      rw [readLines, readLines, Bool.not_inj hinked, hdecode]
      simp only [ih]

theorem readLines_append_empty (previous : Option Feature) (line : Nat)
    (ls : List (List Char)) :
    readLines previous line (ls ++ [[]]) = readLines previous line ls := by
  rw [readLines_append]
  cases readLines previous line ls with
  | error e => rfl
  | ok fs =>
      show Except.ok (fs ++ []) = _
      rw [List.append_nil]

theorem readLines_splitOn_append_return (previous : Option Feature) (line : Nat)
    (cs : List Char) :
    readLines previous line ((cs ++ ['\r']).splitOn '\n') =
      readLines previous line (cs.splitOn '\n') := by
  obtain ⟨pieces, last, hsplit⟩ := Text.exists_splitOn_eq_concat '\n' cs
  have hreturn : ['\r'].splitOn '\n' = [['\r']] := Text.splitOn_eq_singleton (by decide)
  rw [hsplit, Text.splitOn_append hsplit hreturn]
  exact readLines_congr (List.rel_append (List.forall₂_same.2 fun l _ => ReadAlike.refl l)
    (.cons (readAlike_append_return last) .nil))

/-- The lines of a text may be taken to be all of its pieces between line feeds. -/
theorem readLines_lines (previous : Option Feature) (line : Nat) (cs : List Char) :
    readLines previous line (Text.lines cs) = readLines previous line (cs.splitOn '\n') := by
  obtain ⟨pieces, last, hsplit⟩ := Text.exists_splitOn_eq_concat '\n' cs
  have hended : List.Forall₂ ReadAlike
      (pieces.map fun l => if l.getLast? = some '\r' then l.dropLast else l) pieces := by
    rw [List.forall₂_map_left_iff, List.forall₂_same]
    intro l hl
    split
    · rename_i hreturn
      obtain ⟨pre, rfl⟩ := List.getLast?_eq_some_iff.1 hreturn
      rw [List.dropLast_concat]
      exact ⟨(isInked_append_return pre).symm, (decodeLine_append_return pre).symm⟩
    · exact ReadAlike.refl l
  rw [Text.lines, hsplit, List.dropLast_concat, List.getLast?_concat]
  cases last with
  | nil => rw [readLines_append_empty]; exact readLines_congr hended
  | cons c last =>
      exact readLines_congr (List.rel_append hended (.cons (ReadAlike.refl _) .nil))

/-! ### Texts -/

theorem decode_eq_error_iff {text : String} {e : FormatError} :
    decode text = .error e ↔ readLines none 1 (text.toList.splitOn '\n') = .error e := by
  rw [← readLines_lines]
  unfold decode
  split <;> rename_i h <;> simp [h]

theorem decode_eq_ok_iff {text : String} {p : Fingerprint} :
    decode text = .ok p ↔
      readLines none 1 (Text.lines text.toList) = .ok p.features ∧
        p.interval = typicalInterval p.features ∧ p.duration = lastTime p.features := by
  unfold decode
  split
  · rename_i h
    simp [h]
  · rename_i fs h
    constructor
    · intro hp
      cases hp
      exact ⟨h, rfl, rfl⟩
    · rintro ⟨hfs, hinterval, hduration⟩
      obtain ⟨features, interval, duration, valid⟩ := p
      obtain rfl : fs = features := Except.ok.inj (h.symm.trans hfs)
      dsimp only at hinterval hduration
      subst hinterval hduration
      rfl

/-- What lines give is a fingerprint. -/
theorem exists_decode_iff {text : String} :
    (∃ p, decode text = .ok p ∧ p.features = fs) ↔
      readLines none 1 (text.toList.splitOn '\n') = .ok fs := by
  rw [← readLines_lines]
  simp only [decode_eq_ok_iff]
  constructor
  · rintro ⟨p, ⟨h, -, -⟩, rfl⟩
    exact h
  · intro h
    exact ⟨⟨fs, typicalInterval fs, lastTime fs, valid_of_readLines h⟩, ⟨h, rfl, rfl⟩, rfl⟩

end VideoFingerprint.Fingerprint
