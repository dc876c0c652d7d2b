import VideoFingerprint.Decimal.Shortest
import VideoFingerprint.Text.Hex

/-!
JSON values for output, and their two written forms: on one line without any space, and spread
over lines with two spaces for each level. The fields of an object keep their order.
-/

namespace VideoFingerprint.Json

/-- A value to be written. -/
inductive Value
  | null
  | bool (b : Bool)
  | natural (n : Nat)
  | float (x : Float)
  | string (s : String)
  | array (items : List Value)
  | object (fields : List (String × Value))

namespace Value

/-- Numbers in JSON: the shortest digits, with `.0` for whole numbers, and with an exponent
from `1e16` on and below `1e-5`. -/
def layout : Decimal.Layout :=
  { tie := .even, pointZero := true, positionalRange := some (-5, 15), plusSign := true }

/-- The text of a number; what is not finite has none. -/
def floatText (x : Float) : String := if x.isFinite then layout.format x else "null"

def escape (c : Char) : List Char :=
  if c = '"' then ['\\', '"']
  else if c = '\\' then ['\\', '\\']
  else if c = '\x08' then ['\\', 'b']
  else if c = '\x0c' then ['\\', 'f']
  else if c = '\n' then ['\\', 'n']
  else if c = '\r' then ['\\', 'r']
  else if c = '\t' then ['\\', 't']
  else if c < ' ' then '\\' :: 'u' :: Text.fixedHex 4 c.toNat
  else [c]

def quoted (s : String) : String := String.ofList ('"' :: s.toList.flatMap escape ++ ['"'])

mutual

def compact : Value → String
  | null => "null"
  | bool b => if b then "true" else "false"
  | natural n => toString n
  | float x => floatText x
  | string s => quoted s
  | array items => "[" ++ ",".intercalate (compactItems items) ++ "]"
  | object fields => "\x7b" ++ ",".intercalate (compactFields fields) ++ "\x7d"

def compactItems : List Value → List String
  | [] => []
  | v :: rest => v.compact :: compactItems rest

def compactFields : List (String × Value) → List String
  | [] => []
  | (key, v) :: rest => (quoted key ++ ":" ++ v.compact) :: compactFields rest

end

def indent (level : Nat) : String := "".pushn ' ' (2 * level)

/-- Parts on lines of their own between brackets; without parts the brackets stand together. -/
def block (start finish : String) (level : Nat) (parts : List String) : String :=
  if parts.isEmpty then start ++ finish
  else start ++ "\n" ++ ",\n".intercalate (parts.map fun part => indent (level + 1) ++ part) ++
    "\n"
    ++ indent level ++ finish

mutual

/-- The form on several lines, for a value that starts at the given level. -/
def pretty (level : Nat) : Value → String
  | array items => block "[" "]" level (prettyItems level items)
  | object fields => block "\x7b" "\x7d" level (prettyFields level fields)
  | null => "null"
  | bool b => if b then "true" else "false"
  | natural n => toString n
  | float x => floatText x
  | string s => quoted s

def prettyItems (level : Nat) : List Value → List String
  | [] => []
  | v :: rest => v.pretty (level + 1) :: prettyItems level rest

def prettyFields (level : Nat) : List (String × Value) → List String
  | [] => []
  | (key, v) :: rest => (quoted key ++ ": " ++ v.pretty (level + 1)) :: prettyFields level rest

end

/-! ### Sorting -/

mutual

/-- The value with the fields of every object in the order of their names. -/
def sorted : Value → Value
  | array items => array (sortedItems items)
  | object fields => object ((sortedFields fields).mergeSort fun a b => a.1 ≤ b.1)
  | v => v

def sortedItems : List Value → List Value
  | [] => []
  | v :: rest => v.sorted :: sortedItems rest

def sortedFields : List (String × Value) → List (String × Value)
  | [] => []
  | (key, v) :: rest => (key, v.sorted) :: sortedFields rest

end

end Value

end VideoFingerprint.Json
