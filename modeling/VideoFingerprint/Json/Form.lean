import VideoFingerprint.Json.Read
import VideoFingerprint.Json.Value

/-!
The JSON form of a type: how its values are read, and what they are written as. Whole numbers
have no form of their own, because every field says how large its numbers may be.
-/

namespace VideoFingerprint.Json

/-- A type whose values can be read from JSON and written as JSON. -/
class Form (α : Type) where
  read : Reader α
  value : α → Value

instance : Form Float := ⟨readFloat, .float⟩

instance : Form String := ⟨readText, .string⟩

instance {α : Type} [Form α] : Form (List α) :=
  ⟨readList Form.read, fun xs => .array (xs.map Form.value)⟩

def Value.orNull : Option Value → Value
  | some v => v
  | none => .null

def Value.variant (name : String) (content : Value) : Value := .object [(name, content)]

def Form.ofText {α : Type} [Form α] (text : String) : Except ReadError α :=
  readDocument Form.read text

def Form.toText {α : Type} [Form α] (a : α) : String := (Form.value a).compact

end VideoFingerprint.Json
