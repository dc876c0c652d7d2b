import VideoFingerprint.Json.Scalar
import VideoFingerprint.Json.Tree

/-!
Reading values from JSON. A reader takes a tree and gives a value or the first reason, in the
order of the text, why there is none: the text does not have the wanted form, or a value was
refused by the type it is read for. Records are objects with the fields in any order, or arrays
with the fields in their own order; unknown fields are passed over. Variants are named by a
string, or by an object whose only field holds the content.
-/

namespace VideoFingerprint.Json

/-- Why a value cannot be read. -/
inductive ReadError
  | malformed
  | refused (message : String)
deriving DecidableEq

abbrev Reader (α : Type) := Tree → Except ReadError α

/-! ### Single values -/

def readText : Reader String
  | .string s =>
    match decodeString s with
    | some cs => .ok (String.ofList cs)
    | none => .error .malformed
  | _ => .error .malformed

def readNatural (limit : Nat) : Reader Nat
  | .number n =>
    match n.worth? with
    | some (.natural m) => if m ≤ limit then .ok m else .error .malformed
    | _ => .error .malformed
  | _ => .error .malformed

def readU64 : Reader Nat := readNatural (UInt64.size - 1)

def readU32 : Reader Nat := readNatural (UInt32.size - 1)

def readI64 : Reader Int
  | .number n =>
    match n.worth? with
    | some (.natural m) => if m < UInt64.size / 2 then .ok m else .error .malformed
    | some (.negative m) => .ok (-(m : Int))
    | _ => .error .malformed
  | _ => .error .malformed

def readFloat : Reader Float
  | .number n =>
    match n.worth? with
    | some x => .ok x.toFloat
    | none => .error .malformed
  | _ => .error .malformed

def readUnit : Reader Unit
  | .null => .ok ()
  | _ => .error .malformed

def readOption {α : Type} (read : Reader α) : Reader (Option α)
  | .null => .ok none
  | t => (read t).map some

def readList {α : Type} (read : Reader α) : Reader (List α)
  | .array items closed =>
    match items.mapM read with
    | .error e => .error e
    | .ok xs => if closed then .ok xs else .error .malformed
  | _ => .error .malformed

def skip : Reader Unit := fun t => if t.isWhole then .ok () else .error .malformed

/-- A value that its type may refuse. -/
def checked {α β : Type} (read : Reader α) (check : α → Except String β) : Reader β := fun t =>
  match read t with
  | .error e => .error e
  | .ok a =>
    match check a with
    | .ok b => .ok b
    | .error message => .error (.refused message)

/-! ### Records -/

abbrev FieldLookup := String → Option Tree

/-- How a record is read. `fields` are the names with a check for the value of each; the other
two put the record together, from the fields of an object and from the items of an array. -/
structure Record (α : Type) where
  fields : List (String × Reader Unit)
  ofFields : FieldLookup → Except ReadError α
  ofItems : List Tree → Except ReadError (α × List Tree)

namespace Record

def const {α : Type} (a : α) : Record α := ⟨[], fun _ => .ok a, fun items => .ok (a, items)⟩

/-- A record of two parts, the fields of the first before those of the second. -/
def apply {α β : Type} (f : Record (α → β)) (r : Record α) : Record β where
  fields := f.fields ++ r.fields
  ofFields lookup :=
    match f.ofFields lookup, r.ofFields lookup with
    | .ok g, .ok a => .ok (g a)
    | _, _ => .error .malformed
  ofItems items :=
    match f.ofItems items with
    | .error e => .error e
    | .ok (g, items) =>
      match r.ofItems items with
      | .error e => .error e
      | .ok (a, items) => .ok (g a, items)

/-- A field. `absent` is its value in an object without it, and `short` its value in an array
that ends before it; none where that is an error. -/
def fieldOr {α : Type} (name : String) (read : Reader α) (absent short : Option α) :
    Record α where
  fields := [(name, fun t => (read t).map fun _ => ())]
  ofFields lookup :=
    match lookup name, absent with
    | some t, _ => read t
    | none, some a => .ok a
    | none, none => .error .malformed
  ofItems items :=
    match items, short with
    | t :: rest, _ => (read t).map fun a => (a, rest)
    | [], some a => .ok (a, [])
    | [], none => .error .malformed

def field {α : Type} (name : String) (read : Reader α) : Record α :=
  fieldOr name read none none

/-- A field that may be null; an object may do without it. -/
def optional {α : Type} (name : String) (read : Reader α) : Record (Option α) :=
  fieldOr name (readOption read) (some none) none

def defaulted {α : Type} (name : String) (read : Reader α) (value : α) : Record α :=
  fieldOr name read (some value) (some value)

/-- A record made from two, field by field. -/
instance : Functor Record where
  map f r := apply (const f) r

instance : Applicative Record where
  pure := const
  seq f r := apply f (r ())

/-- Checks the fields of an object in the order of the text: keys are strings, known
fields can be read and come once, and unknown ones are whole if they are allowed at all.
Gives the known fields. -/
def checkFields (known : List (String × Reader Unit)) (unknownAllowed : Bool) :
    (seen : List (String × Tree)) → List (RawString × Tree) →
      Except ReadError (List (String × Tree))
  | seen, [] => .ok seen
  | seen, (rawKey, t) :: rest =>
    match decodeString rawKey with
    | none => .error .malformed
    | some cs =>
      let key := String.ofList cs
      match known.lookup key with
      | some check =>
        if (seen.lookup key).isSome then .error .malformed
        else match check t with
          | .error e => .error e
          | .ok () => checkFields known unknownAllowed ((key, t) :: seen) rest
      | none =>
        if unknownAllowed ∧ t.isWhole then checkFields known unknownAllowed seen rest
        else .error .malformed

def read {α : Type} (r : Record α) (unknownAllowed : Bool) : Reader α
  | .object fields closed =>
    match checkFields r.fields unknownAllowed [] fields with
    | .error e => .error e
    | .ok seen => if closed then r.ofFields (fun key => seen.lookup key) else .error .malformed
  | .array items closed =>
    match r.ofItems items with
    | .error e => .error e
    | .ok (a, rest) => if rest.isEmpty ∧ closed then .ok a else .error .malformed
  | _ => .error .malformed

def reader {α : Type} (r : Record α) : Reader α := r.read true

end Record

def readPair {α β : Type} (first : Reader α) (second : Reader β) : Reader (α × β)
  | .array [a, b] closed =>
    match first a with
    | .error e => .error e
    | .ok x =>
      match second b with
      | .error e => .error e
      | .ok y => if closed then .ok (x, y) else .error .malformed
  | _ => .error .malformed

/-! ### Variants -/

/-- A variant: without content, or with content of its own form. -/
inductive Variant (α : Type)
  | bare (value : α)
  | holding (read : Reader α)

def readVariant {α : Type} (variants : List (String × Variant α)) : Reader α
  | .string s =>
    match (decodeString s).bind fun cs => variants.lookup (String.ofList cs) with
    | some (.bare a) => .ok a
    | _ => .error .malformed
  | .object ((rawKey, t) :: rest) closed =>
    let content :=
      match (decodeString rawKey).bind fun cs => variants.lookup (String.ofList cs) with
      | some (.bare a) => (readUnit t).map fun () => a
      | some (.holding read) => read t
      | none => .error .malformed
    match content with
    | .error e => .error e
    | .ok a => if rest.isEmpty ∧ closed then .ok a else .error .malformed
  | _ => .error .malformed

/-- Reads a text as a value. What comes after the value must be blank. -/
def readDocument {α : Type} (read : Reader α) (text : String) : Except ReadError α :=
  let d := Document.ofText text
  match read d.tree with
  | .error e => .error e
  | .ok a => if d.wellFormed then .ok a else .error .malformed

end VideoFingerprint.Json
