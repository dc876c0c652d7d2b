import VideoFingerprint.Json.Token

/-!
JSON trees that may be cut short. A reader works through a text from left to right and stops at
the first thing it cannot accept, so what stands before a malformed place can still be refused
for other reasons. The tree of a text therefore keeps everything up to the first malformed
place; containers that were open there are marked as unclosed.
-/

namespace VideoFingerprint.Json

abbrev RawString := List StringPiece

/-- A JSON value, or as much of it as is well formed; `missing` stands where no value
could be read. -/
inductive Tree
  | missing
  | null
  | bool (b : Bool)
  | number (n : NumberText)
  | string (s : RawString)
  | array (items : List Tree) (closed : Bool)
  | object (fields : List (RawString × Tree)) (closed : Bool)

/-- A container that is still open, its parts in reverse order. An object may have read a key
whose value is still to come. -/
inductive OpenTree
  | array (items : List Tree)
  | object (fields : List (RawString × Tree)) (key : Option RawString)

/-- What may come next: a value; a value or the end of an array; a key; a key or the end of an
object; the colon after a key; a comma or the end of the container. -/
inductive Expected
  | value
  | valueOrEnd
  | key
  | keyOrEnd
  | colon
  | separator

/-- How far the reading of a text has come. -/
inductive Reading
  | within (stack : List OpenTree) (expected : Expected)
  | done (t : Tree)
  | failed (t : Tree)

namespace Reading

def add (t : Tree) : OpenTree → OpenTree
  | .array items => .array (t :: items)
  | .object fields (some key) => .object ((key, t) :: fields) none
  | .object fields none => .object fields none

def close (closed : Bool) : OpenTree → Tree
  | .array items => .array items.reverse closed
  | .object fields _ => .object fields.reverse closed

/-- All that has been read when the open containers, innermost first, are cut short. -/
def cutShort : List OpenTree → Tree
  | [] => .missing
  | o :: outer => outer.foldl (fun t o => close false (add t o)) (close false o)

def put (t : Tree) : List OpenTree → Reading
  | [] => .done t
  | o :: outer => .within (add t o :: outer) .separator

def scalar? : Token → Option Tree
  | .null => some .null
  | .bool b => some (.bool b)
  | .number n => some (.number n)
  | .string s => some (.string s)
  | _ => none

def startValue (stack : List OpenTree) (t : Token) : Reading :=
  match scalar? t, t with
  | some v, _ => put v stack
  | none, .openArray => .within (.array [] :: stack) .valueOrEnd
  | none, .openObject => .within (.object [] none :: stack) .keyOrEnd
  | none, _ => .failed (cutShort stack)

def step : Reading → Token → Reading
  | .failed t, _ => .failed t
  | .done t, _ => .failed t
  | .within stack expected, token =>
    match expected, token, stack with
    | .value, t, stack => startValue stack t
    | .valueOrEnd, .closeArray, o :: outer => put (close true o) outer
    | .valueOrEnd, t, stack => startValue stack t
    | .keyOrEnd, .closeObject, o :: outer => put (close true o) outer
    | .keyOrEnd, .string s, .object fields _ :: outer =>
        .within (.object fields (some s) :: outer) .colon
    | .key, .string s, .object fields _ :: outer =>
        .within (.object fields (some s) :: outer) .colon
    | .colon, .colon, stack => .within stack .value
    | .separator, .comma, o@(.array _) :: outer => .within (o :: outer) .value
    | .separator, .comma, o@(.object ..) :: outer => .within (o :: outer) .key
    | .separator, .closeArray, o@(.array _) :: outer => put (close true o) outer
    | .separator, .closeObject, o@(.object ..) :: outer => put (close true o) outer
    | _, _, stack => .failed (cutShort stack)

end Reading

/-- The tree of a text, and whether the text is well formed to its end. -/
structure Document where
  tree : Tree
  wellFormed : Bool

def Document.ofTokens (ts : List Token) : Document :=
  match ts.foldl Reading.step (.within [] .value) with
  | .done t => ⟨t, true⟩
  | .failed t => ⟨t, false⟩
  | .within stack _ => ⟨Reading.cutShort stack, false⟩

def Document.ofText (text : String) : Document := .ofTokens (tokens text.toList)

mutual

def Tree.isWhole : Tree → Bool
  | .missing => false
  | .array items closed => Tree.areWhole items && closed
  | .object fields closed => Tree.fieldsAreWhole fields && closed
  | _ => true

def Tree.areWhole : List Tree → Bool
  | [] => true
  | t :: ts => t.isWhole && Tree.areWhole ts

def Tree.fieldsAreWhole : List (RawString × Tree) → Bool
  | [] => true
  | (_, t) :: fields => t.isWhole && Tree.fieldsAreWhole fields

end

end VideoFingerprint.Json
