/-!
# JSON values

Numbers keep the text in which they are written. Members of an object keep their order, also repeated ones.
A string that holds half a surrogate pair is a string without text.
-/

namespace Dvi

/-- A JSON value. -/
inductive Json where
  | null
  | bool (b : Bool)
  | number (literal : String)
  | string (text : Option String)
  | array (elements : List Json)
  | object (members : List (Option String × Json))
  deriving Inhabited

namespace Json

/-- A text. -/
def ofText (s : String) : Json := .string (some s)

/-- An integer, in decimal digits. -/
def ofInt (n : Int) : Json := .number (toString n)

/-- A natural number, in decimal digits. -/
def ofNat (n : Nat) : Json := .number (toString n)

/-- A value, or nothing. -/
def ofOption {α : Type} (f : α → Json) : Option α → Json
  | none => .null
  | some a => f a

/-- An object with members of fixed names. -/
def record (members : List (String × Json)) : Json := .object (members.map fun (k, v) => (some k, v))

/-- Bytes, each as a number. -/
def ofBytes (bytes : ByteArray) : Json := .array (bytes.data.toList.map fun b => ofNat b.toNat)

end Json

end Dvi
