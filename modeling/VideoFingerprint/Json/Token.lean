import VideoFingerprint.Text.Digits
import VideoFingerprint.Text.Hex

/-!
Tokens of a JSON text. Numbers and strings are kept as they are written: what a number is
worth, and whether escaped surrogates fit together, is asked only where the value is used. The
first character that belongs to no token ends the list.
-/

namespace VideoFingerprint.Json

open Text

/-- A number as written. -/
structure NumberText where
  negative : Bool
  whole : List Char
  fraction : Option (List Char)
  exponent : Option (Bool × List Char)

/-- A piece of a string: a character, or an escaped unit of 16 bits. -/
inductive StringPiece
  | char (c : Char)
  | unit (n : Nat)

inductive Token
  | openArray
  | closeArray
  | openObject
  | closeObject
  | comma
  | colon
  | null
  | bool (b : Bool)
  | number (n : NumberText)
  | string (pieces : List StringPiece)
  | bad

def isSpace (c : Char) : Bool := c = ' ' ∨ c = '\n' ∨ c = '\t' ∨ c = '\r'

/-! ### Strings -/

/-- The character that a single letter after a backslash stands for. -/
def escaped? : Char → Option Char
  | '"' => some '"'
  | '\\' => some '\\'
  | '/' => some '/'
  | 'b' => some '\x08'
  | 'f' => some '\x0c'
  | 'n' => some '\n'
  | 'r' => some '\r'
  | 't' => some '\t'
  | _ => none

def unitOf? (a b c d : Char) : Option Nat :=
  if [a, b, c, d].all fun x => (hexValue? x).isSome then some (numberOfHex [a, b, c, d])
  else none

/-- The rest of a string after its opening quote, and the text after the string. -/
def readString : List Char → Option (List StringPiece × List Char)
  | [] => none
  | '"' :: rest => some ([], rest)
  | '\\' :: 'u' :: a :: b :: c :: d :: rest =>
    match unitOf? a b c d, readString rest with
    | some n, some (pieces, after) => some (.unit n :: pieces, after)
    | _, _ => none
  | '\\' :: e :: rest =>
    match escaped? e, readString rest with
    | some x, some (pieces, after) => some (.char x :: pieces, after)
    | _, _ => none
  | x :: rest =>
    if x < ' ' ∨ x = '\\' then none
    else match readString rest with
      | some (pieces, after) => some (.char x :: pieces, after)
      | none => none

theorem length_of_readString {cs after : List Char} {pieces : List StringPiece}
    (h : readString cs = some (pieces, after)) : after.length ≤ cs.length := by
  fun_induction readString cs generalizing pieces after with
  | case1 => cases h
  | case2 rest => cases h; simp
  | case4 | case6 | case7 | case9 => cases h
  | case3 | case5 | case8 =>
      rename_i ih
      cases h
      have := ih ‹_›
      simp only [List.length_cons]
      omega

/-! ### Numbers -/

/-- The digits after the point, if there is a point; none when digits are missing. -/
def readFraction : List Char → Option (Option (List Char) × List Char)
  | '.' :: rest =>
    let (ds, after) := splitDigits rest
    if ds.isEmpty then none else some (some ds, after)
  | cs => some (none, cs)

/-- The exponent, if there is one; none when digits are missing. -/
def readExponent : List Char → Option (Option (Bool × List Char) × List Char)
  | [] => some (none, [])
  | c :: rest =>
    if c = 'e' ∨ c = 'E' then
      let (negative, digits) := splitSign rest
      let (ds, after) := splitDigits digits
      if ds.isEmpty then none else some (some (negative, ds), after)
    else some (none, c :: rest)

/-- A number and the text after it. Only a zero that stands alone may start the digits
before the point. -/
def readNumber (cs : List Char) : Option (NumberText × List Char) :=
  let (negative, digits) := match cs with
    | '-' :: rest => (true, rest)
    | _ => (false, cs)
  let (whole, rest) := splitDigits digits
  if whole.isEmpty ∨ (whole.head? = some '0' ∧ 1 < whole.length) then none
  else match readFraction rest with
    | none => none
    | some (fraction, rest) =>
      match readExponent rest with
      | none => none
      | some (exponent, rest) => some (⟨negative, whole, fraction, exponent⟩, rest)

theorem length_splitDigits (cs : List Char) :
    (splitDigits cs).1.length + (splitDigits cs).2.length = cs.length := by
  have := congrArg List.length (splitDigits_append cs)
  simpa using this

theorem length_splitSign_le (cs : List Char) : (splitSign cs).2.length ≤ cs.length := by
  unfold splitSign
  split <;> simp

theorem length_of_readFraction {cs after : List Char} {f : Option (List Char)}
    (h : readFraction cs = some (f, after)) : after.length ≤ cs.length := by
  unfold readFraction at h
  split at h
  · rename_i rest
    dsimp only at h
    split at h
    · cases h
    · cases h
      have := length_splitDigits rest
      simp only [List.length_cons]
      omega
  · cases h; exact Nat.le_refl _

theorem length_of_readExponent {cs after : List Char} {e : Option (Bool × List Char)}
    (h : readExponent cs = some (e, after)) : after.length ≤ cs.length := by
  unfold readExponent at h
  split at h
  · cases h; exact Nat.le_refl _
  · rename_i c rest
    dsimp only at h
    split at h
    · split at h
      · cases h
      · cases h
        have := length_splitDigits (splitSign rest).2
        have := length_splitSign_le rest
        simp only [List.length_cons]
        omega
    · cases h; exact Nat.le_refl _

theorem length_of_readNumber {cs after : List Char} {n : NumberText}
    (h : readNumber cs = some (n, after)) : after.length < cs.length := by
  have key : ∀ (negative : Bool) (digits : List Char), digits.length ≤ cs.length →
      (if (splitDigits digits).1.isEmpty ∨
          ((splitDigits digits).1.head? = some '0' ∧ 1 < (splitDigits digits).1.length) then
          none
        else match readFraction (splitDigits digits).2 with
          | none => none
          | some (fraction, rest) =>
            match readExponent rest with
            | none => none
            | some (exponent, rest) =>
              some (NumberText.mk negative (splitDigits digits).1 fraction exponent, rest)) =
                some (n, after) →
      after.length < cs.length := by
    intro negative digits hle hd
    split at hd
    · cases hd
    · rename_i hne
      split at hd
      · cases hd
      · rename_i fraction rest hf
        split at hd
        · cases hd
        · rename_i exponent rest' he
          cases hd
          have h1 := length_splitDigits digits
          have h2 := length_of_readFraction hf
          have h3 := length_of_readExponent he
          have h4 : 0 < (splitDigits digits).1.length := by
            cases hw : (splitDigits digits).1 with
            | nil => simp [hw] at hne
            | cons _ _ => simp
          omega
  unfold readNumber at h
  dsimp only at h
  split at h
  · exact key true _ (by simp) h
  · exact key false _ (Nat.le_refl _) h

/-! ### Splitting a text into tokens -/

/-- The token that starts with the given character, and the text after it. -/
def tokenAt (c : Char) (rest : List Char) : Option (Token × List Char) :=
  match c, rest with
  | '[', _ => some (.openArray, rest)
  | ']', _ => some (.closeArray, rest)
  | '{', _ => some (.openObject, rest)
  | '}', _ => some (.closeObject, rest)
  | ',', _ => some (.comma, rest)
  | ':', _ => some (.colon, rest)
  | 'n', 'u' :: 'l' :: 'l' :: after => some (.null, after)
  | 't', 'r' :: 'u' :: 'e' :: after => some (.bool true, after)
  | 'f', 'a' :: 'l' :: 's' :: 'e' :: after => some (.bool false, after)
  | '"', _ => (readString rest).map fun (pieces, after) => (.string pieces, after)
  | _, _ => (readNumber (c :: rest)).map fun (n, after) => (.number n, after)

theorem length_of_tokenAt {c : Char} {rest after : List Char} {t : Token}
    (h : tokenAt c rest = some (t, after)) : after.length ≤ rest.length := by
  unfold tokenAt at h
  split at h
  case h_10 =>
    obtain ⟨⟨pieces, r⟩, hr, he⟩ := Option.map_eq_some_iff.1 h
    cases he
    exact length_of_readString hr
  case h_11 =>
    obtain ⟨⟨n, r⟩, hr, he⟩ := Option.map_eq_some_iff.1 h
    cases he
    have := length_of_readNumber hr
    simp only [List.length_cons] at this
    omega
  all_goals
    cases h
    simp only [List.length_cons, Nat.le_refl]
    try omega

/-- The tokens of a text, up to the first character that belongs to none. -/
def tokens : List Char → List Token
  | [] => []
  | c :: rest =>
    if isSpace c then tokens rest
    else match _h : tokenAt c rest with
      | none => [.bad]
      | some (t, after) => t :: tokens after
termination_by cs => cs.length
decreasing_by
  · simp
  · have := length_of_tokenAt _h
    simp only [List.length_cons]
    omega

end VideoFingerprint.Json
