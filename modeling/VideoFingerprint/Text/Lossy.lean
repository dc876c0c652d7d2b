/-!
Bytes that are shown as a text although they need not be one. Bytes that make no character are
replaced; those that start a character which is then broken off are replaced together.
-/

namespace VideoFingerprint.Text

/-- For the first byte of a character of several bytes: the least and the greatest byte that
may come second, and the number of bytes after that. -/
def secondByte? (first : UInt8) : Option (UInt8 × UInt8 × Nat) :=
  if first < 0xC2 then none
  else if first ≤ 0xDF then some (0x80, 0xBF, 0)
  else if first = 0xE0 then some (0xA0, 0xBF, 1)
  else if first = 0xED then some (0x80, 0x9F, 1)
  else if first ≤ 0xEF then some (0x80, 0xBF, 1)
  else if first = 0xF0 then some (0x90, 0xBF, 2)
  else if first ≤ 0xF3 then some (0x80, 0xBF, 2)
  else if first = 0xF4 then some (0x80, 0x8F, 2)
  else none

def isContinuation (b : UInt8) : Bool := 0x80 ≤ b ∧ b ≤ 0xBF

/-- The number of bytes that go on with the character of the first one. -/
def followers (first : UInt8) : List UInt8 → Nat
  | [] => 0
  | second :: rest =>
    match secondByte? first with
    | none => 0
    | some (low, high, more) =>
      if low ≤ second ∧ second ≤ high then
        1 + ((rest.take more).takeWhile isContinuation).length
      else 0

def replacement : String := "\uFFFD"

def showBytes : List UInt8 → String
  | [] => ""
  | first :: rest =>
    let n := followers first rest
    (String.fromUTF8? ⟨(first :: rest.take n).toArray⟩).getD replacement ++
      showBytes (rest.drop n)
termination_by bytes => bytes.length
decreasing_by
  rw [List.length_drop, List.length_cons]
  omega

example : showBytes [0x61, 0xF1, 0x80, 0x80, 0xE1, 0x80, 0xC2, 0x62, 0x80, 0xC3, 0xA9] =
    "a\uFFFD\uFFFD\uFFFDb\uFFFDé" := by decide +kernel

end VideoFingerprint.Text
