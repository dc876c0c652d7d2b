import VideoFingerprint.Proofs.Fingerprint.Lines

/-!
What a reader says about a text, said of its parts. The error of a text is that of its first
bad line: the lines before it are read, and nothing after it changes the answer. The whole
lines that a text begins with give the features that the text begins with. Two texts put one
after the other give the features of both, unless the first feature of the second does not
follow the last feature of the first.
-/

namespace VideoFingerprint.Fingerprint

open Outcome

/-- A line of a text, between the lines before it with their ends and what follows its
own characters. -/
structure LineAt (text before line after : String) : Prop where
  eq : text = before ++ line ++ after
  unbroken : '\n' ∉ line.toList
  starts : before = "" ∨ ∃ s, before = s ++ "\n"
  ends : after = "" ∨ ∃ s, after = "\n" ++ s

/-- The number of the line that starts after a text. -/
def numberAfter (before : String) : Nat := before.toList.count '\n' + 1

/-- The first part of a text consists of whole lines, perhaps without the end
of the last one. -/
def WholeLines (first rest : String) : Prop :=
  (first = "" ∨ ∃ s, first = s ++ "\n") ∨ rest = "" ∨ (∃ s, rest = "\n" ++ s) ∨
  ∃ s, rest = "\r\n" ++ s

/-! ### Lines of a text -/

def endedLines (ls : List (List Char)) : String :=
  String.ofList (ls.flatMap fun l => l ++ ['\n'])

theorem toList_endedLines (ls : List (List Char)) :
    (endedLines ls).toList = ls.flatMap fun l => l ++ ['\n'] :=
  String.toList_ofList

theorem endedLines_starts (ls : List (List Char)) :
    endedLines ls = "" ∨ ∃ s, endedLines ls = s ++ "\n" := by
  cases ls.eq_nil_or_concat with
  | inl hnil =>
      rw [hnil]
      exact .inl rfl
  | inr hconcat =>
      obtain ⟨pre, l, rfl⟩ := hconcat
      refine .inr ⟨endedLines pre ++ String.ofList l, String.toList_inj.1 ?_⟩
      simp [toList_endedLines]

theorem exists_lineAt {text : String} {before after : List (List Char)} {l : List Char}
    (h : text.toList.splitOn '\n' = before ++ l :: after) :
    ∃ rest, LineAt text (endedLines before) (String.ofList l) rest := by
  obtain ⟨cs, htext, hcs⟩ := Text.exists_around_piece h
  refine ⟨String.ofList cs, String.toList_inj.1 ?_, ?_, endedLines_starts before, ?_⟩
  · simp [toList_endedLines, htext]
  · rw [String.toList_ofList]
    exact Text.notMem_of_mem_splitOn (h ▸ List.mem_append_right before List.mem_cons_self)
  · refine hcs.imp (congrArg String.ofList) fun hhead => ?_
    obtain ⟨tail, rfl⟩ := List.head?_eq_some_iff.1 hhead
    exact ⟨String.ofList tail, String.toList_inj.1 (by simp)⟩

variable {text : String} {before after : List (List Char)} {l : List Char}

theorem notMem_before (h : text.toList.splitOn '\n' = before ++ l :: after) :
    ∀ k ∈ before, '\n' ∉ k :=
  fun _ hk => Text.notMem_of_mem_splitOn (h ▸ List.mem_append_left _ hk)

theorem numberAfter_endedLines (h : ∀ k ∈ before, '\n' ∉ k) :
    numberAfter (endedLines before) = 1 + before.length := by
  rw [numberAfter, toList_endedLines, Text.count_flatMap h, Nat.add_comm]

theorem numberAfter_append_lineFeed (s t : String) :
    numberAfter (s ++ "\n" ++ t) = numberAfter s + numberAfter t := by
  simp only [numberAfter, String.toList_append, List.count_append,
    show "\n".toList.count '\n' = 1 from rfl]
  omega

theorem isInked_endedLines (h : ∀ k ∈ before, IsInked k = false) :
    IsInked (endedLines before).toList = false := by
  simp only [IsInked, Bool.not_eq_false'] at h
  rw [IsInked, toList_endedLines, List.all_flatMap, Bool.not_eq_false', List.all_eq_true]
  intro k hk
  simp [h k hk, show Text.isBlank '\n' = true by decide]

/-! ### The first bad line -/

theorem exists_lineAt_of_decode_eq_error {e : FormatError} (h : decode text = .error e) :
    ∃ before line after, LineAt text before line after ∧ e.line = numberAfter before ∧
      IsInked line.toList = true ∧ (∃ p, decode before = .ok p) ∧
      ∀ rest, decode (before ++ line ++ "\n" ++ rest) = .error e := by
  obtain ⟨before, l, after, hsplit, hline, hinked, ⟨fs, hfs⟩, hstays⟩ :=
    exists_of_readLines_eq_error (decode_eq_error_iff.1 h)
  obtain ⟨tail, hat⟩ := exists_lineAt hsplit
  have hfree := notMem_before hsplit
  refine ⟨endedLines before, String.ofList l, tail, hat, ?_, ?_, ?_, fun rest => ?_⟩
  · rw [hline, numberAfter_endedLines hfree]
  · rwa [String.toList_ofList]
  · have hread : readLines none 1 ((endedLines before).toList.splitOn '\n') = .ok fs := by
      have hended := Text.splitOn_flatMap_append hfree []
      rw [List.append_nil, List.splitOn_nil] at hended
      rw [toList_endedLines, hended, readLines_append_empty, hfs]
    obtain ⟨p, hp, -⟩ := exists_decode_iff.2 hread
    exact ⟨p, hp⟩
  · have hl : '\n' ∉ l :=
      Text.notMem_of_mem_splitOn (hsplit ▸ List.mem_append_right before List.mem_cons_self)
    have htext : (endedLines before ++ String.ofList l ++ "\n" ++ rest).toList =
        (before.flatMap fun k => k ++ ['\n']) ++ (l ++ '\n' :: rest.toList) := by
      simp [toList_endedLines]
    rw [decode_eq_error_iff, htext, Text.splitOn_flatMap_append hfree,
      List.splitOn_append_cons_self_of_not_mem hl]
    exact hstays (rest.toList.splitOn '\n')

/-! ### Whole lines at the beginning -/

theorem splitOn_append_lineFeed (s t : String) :
    (s ++ "\n" ++ t).toList.splitOn '\n' = s.toList.splitOn '\n' ++ t.toList.splitOn '\n' := by
  rw [String.toList_append, String.toList_append, List.append_assoc]
  exact List.splitOn_append_cons_self _ _

theorem exists_prefix_of_decode_append_lineFeed {s t : String} {p : Fingerprint}
    (h : decode (s ++ "\n" ++ t) = .ok p) :
    ∃ q, decode s = .ok q ∧ q.features <+: p.features := by
  have hread := exists_decode_iff.1 ⟨p, h, rfl⟩
  rw [splitOn_append_lineFeed] at hread
  obtain ⟨gs, hgs, hfront⟩ := exists_prefix_of_readLines_append hread
  obtain ⟨q, hq, rfl⟩ := exists_decode_iff.2 hgs
  exact ⟨q, hq, hfront⟩

theorem exists_prefix_of_decode {first rest : String} {p : Fingerprint}
    (h : decode (first ++ rest) = .ok p) (hwhole : WholeLines first rest) :
    ∃ q, decode first = .ok q ∧ q.features <+: p.features := by
  obtain (rfl | ⟨s, rfl⟩) | rfl | ⟨s, rfl⟩ | ⟨s, rfl⟩ := hwhole
  · obtain ⟨q, hq, hnil⟩ :=
      exists_decode_iff.2 (show readLines none 1 ("".toList.splitOn '\n') = .ok [] from rfl)
    exact ⟨q, hq, hnil ▸ List.nil_prefix⟩
  · obtain ⟨q, hq, hfront⟩ := exists_prefix_of_decode_append_lineFeed h
    have hread := exists_decode_iff.1 ⟨q, hq, rfl⟩
    rw [← readLines_append_empty, ← List.splitOn_nil, ← String.toList_empty,
      ← splitOn_append_lineFeed, String.append_empty] at hread
    obtain ⟨q', hq', hfeatures⟩ := exists_decode_iff.2 hread
    exact ⟨q', hq', hfeatures ▸ hfront⟩
  · rw [String.append_empty] at h
    exact ⟨p, h, List.prefix_rfl⟩
  · rw [← String.append_assoc] at h
    exact exists_prefix_of_decode_append_lineFeed h
  · have htext : first ++ ("\r\n" ++ s) = first ++ "\r" ++ "\n" ++ s :=
      String.toList_inj.1 (by simp)
    rw [htext] at h
    obtain ⟨q, hq, hfront⟩ := exists_prefix_of_decode_append_lineFeed h
    have hread := exists_decode_iff.1 ⟨q, hq, rfl⟩
    rw [String.toList_append, show "\r".toList = ['\r'] from rfl,
      readLines_splitOn_append_return] at hread
    obtain ⟨q', hq', hfeatures⟩ := exists_decode_iff.2 hread
    exact ⟨q', hq', hfeatures ▸ hfront⟩

/-! ### One text after another -/

variable {s t : String} {p q : Fingerprint}

/-- Reading goes on in the second text with the last feature of the first one. -/
theorem readLines_append_lineFeed (hs : decode s = .ok p) (t : String) :
    readLines none 1 ((s ++ "\n" ++ t).toList.splitOn '\n') =
      (readLines p.features.getLast? (numberAfter s + 1) (t.toList.splitOn '\n')).map
        (p.features ++ ·) := by
  rw [splitOn_append_lineFeed, readLines_append, exists_decode_iff.1 ⟨p, hs, rfl⟩,
    Text.length_splitOn]
  show Except.map _ (readLines (p.features.getLast?.or none) _ _) = _
  rw [Option.or_none, numberAfter, Nat.add_comm 1]

theorem exists_decode_append (hs : decode s = .ok p) (ht : decode t = .ok q)
    (h : ∀ f ∈ p.features.getLast?, ∀ g ∈ q.features.head?, f.Follows g) :
    ∃ r, decode (s ++ "\n" ++ t) = .ok r ∧ r.features = p.features ++ q.features := by
  rw [exists_decode_iff, readLines_append_lineFeed hs,
    readLines_of_follows (exists_decode_iff.1 ⟨q, ht, rfl⟩) h]
  rfl

theorem decode_append_eq_error {f g : Feature} (hs : decode s = .ok p) (ht : decode t = .ok q)
    (hf : p.features.getLast? = some f) (hg : q.features.head? = some g)
    (hnot : ¬ f.Follows g) :
    ∃ before line after, LineAt t before line after ∧ IsInked before.toList = false ∧
      IsInked line.toList = true ∧ decodeLine line.toList = .ok g ∧
      decode (s ++ "\n" ++ t) = .error ⟨numberAfter (s ++ "\n" ++ before), .order f g⟩ := by
  obtain ⟨gs, hcons⟩ := List.head?_eq_some_iff.1 hg
  have hread := exists_decode_iff.1 ⟨q, ht, hcons⟩
  obtain ⟨before, l, after, hsplit, hblank, hinked, hl⟩ := exists_first_of_readLines hread
  obtain ⟨tail, hat⟩ := exists_lineAt hsplit
  refine ⟨endedLines before, String.ofList l, tail, hat, isInked_endedLines hblank, ?_, ?_, ?_⟩
  · rwa [String.toList_ofList]
  · rwa [String.toList_ofList]
  · rw [decode_eq_error_iff, readLines_append_lineFeed hs, hsplit,
      readLines_append_of_blank hblank, hf, readLines_cons_of_not_follows hinked hl hnot,
      numberAfter_append_lineFeed, numberAfter_endedLines (notMem_before hsplit),
      ← Nat.add_assoc]
    rfl

/-- A text is read line by line. Its error is that of the first bad line, whose number
counts blank lines too; what comes after that line is not looked at. Whole lines at the
beginning are read as they are in the whole text. One text after another is read as both of
them if their features are in order, and is otherwise at fault in the line of the second
text's first feature. -/
theorem decode_lineByLine :
    (∀ (text : String) (e : FormatError), decode text = .error e →
      ∃ before line after, LineAt text before line after ∧ e.line = numberAfter before ∧
        IsInked line.toList = true ∧ (∃ p, decode before = .ok p) ∧
        ∀ rest, decode (before ++ line ++ "\n" ++ rest) = .error e) ∧
    (∀ (first rest : String) (p : Fingerprint), decode (first ++ rest) = .ok p →
      WholeLines first rest →
      ∃ q, decode first = .ok q ∧ q.features <+: p.features) ∧
    ∀ (s t : String) (p q : Fingerprint), decode s = .ok p → decode t = .ok q →
      ((∀ f ∈ p.features.getLast?, ∀ g ∈ q.features.head?, f.Follows g) →
        ∃ r, decode (s ++ "\n" ++ t) = .ok r ∧ r.features = p.features ++ q.features) ∧
      ∀ f ∈ p.features.getLast?, ∀ g ∈ q.features.head?, ¬ f.Follows g →
        ∃ before line after, LineAt t before line after ∧ IsInked before.toList = false ∧
          IsInked line.toList = true ∧ decodeLine line.toList = .ok g ∧
          decode (s ++ "\n" ++ t) =
            .error ⟨numberAfter (s ++ "\n" ++ before), .order f g⟩ := by
  refine ⟨fun text e => exists_lineAt_of_decode_eq_error,
    fun first rest p => exists_prefix_of_decode, ?_⟩
  intro s t p q hs ht
  exact ⟨exists_decode_append hs ht, fun f hf g hg => decode_append_eq_error hs ht hf hg⟩

def oneLineText (n : Nat) : String :=
  "\r\n" ++ toString n ++
    ",50,0123456789abcdef0123456789abcdef0123456789abcdef0123456789abcdef,1\n"

theorem decode_lineByLine_oneLineText :
    (∃ e, decode (oneLineText 3 ++ "\n" ++ oneLineText 2) = .error e ∧
      ∃ before line after, LineAt (oneLineText 3 ++ "\n" ++ oneLineText 2) before line after ∧
        e.line = numberAfter before ∧ ∃ p, decode before = .ok p) ∧
    ∃ r, decode (oneLineText 2 ++ "\n" ++ oneLineText 3) = .ok r ∧ r.size = 2 ∧
      ∃ q, decode (oneLineText 2) = .ok q ∧ q.features <+: r.features := by
  obtain ⟨herror, hwhole, happend⟩ := decode_lineByLine
  have hread :
      ((decode (oneLineText 2)).toOption.bind fun p =>
        (decode (oneLineText 3)).toOption.map fun q =>
      decide (p.size = 1 ∧ q.size = 1 ∧ ∀ f ∈ p.features, ∀ g ∈ q.features, f.Follows g ∧
        ¬ g.Follows f)) =
        some true := by decide +kernel
  obtain ⟨p, hp, hread⟩ := Option.bind_eq_some_iff.1 hread
  obtain ⟨q, hq, hread⟩ := Option.map_eq_some_iff.1 hread
  rw [toOption_eq_some_iff] at hp hq
  obtain ⟨hpsize, hqsize, hfollows⟩ := of_decide_eq_true hread
  obtain ⟨f, hf⟩ : ∃ f, p.features = [f] := List.length_eq_one_iff.1 hpsize
  obtain ⟨g, hg⟩ : ∃ g, q.features = [g] := List.length_eq_one_iff.1 hqsize
  obtain ⟨hbefore, hafter⟩ := hfollows f (by simp [hf]) g (by simp [hg])
  constructor
  · obtain ⟨before, line, after, -, -, -, -, he⟩ :=
      (happend _ _ q p hq hp).2 g (by simp [hg]) f (by simp [hf]) hafter
    obtain ⟨before', line', after', hat, hline, -, hok, -⟩ := herror _ _ he
    exact ⟨_, he, before', line', after', hat, hline, hok⟩
  · obtain ⟨r, hr, hfeatures⟩ := (happend _ _ p q hp hq).1 (by simpa [hf, hg] using hbefore)
    refine ⟨r, hr, by simp [size, hfeatures, hf, hg], ?_⟩
    rw [String.append_assoc] at hr
    exact hwhole _ _ r hr (.inr (.inr (.inl ⟨_, rfl⟩)))

end VideoFingerprint.Fingerprint
