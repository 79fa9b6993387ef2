import Dvi.Json.Token

/-!
# Reading JSON

Tokens are put together with a stack of the arrays and objects that are still open, so values may be nested to
any depth.

* `Json.parse?`: the value that a text writes.
-/

namespace Dvi.Json

/-- An array or object that is still open, with what it holds so far in reverse. -/
inductive Frame where
  | array (elements : List Json)
  | object (members : List (Option String × Json)) (key : Option String)

/-- What may come next. -/
inductive Expect where
  | value
  /-- a value, or the end of the array -/
  | firstElement
  /-- a key, or the end of the object -/
  | firstKey (members : List (Option String × Json))
  | key (members : List (Option String × Json))
  | colon (members : List (Option String × Json)) (key : Option String)
  /-- a comma, or the end of the array or object, after a value -/
  | separator (value : Json)

/-- The innermost open array or object after a value, and what may come next. -/
def afterComma (value : Json) : List Frame → Option (List Frame × Expect)
  | .array elements :: stack => some (.array (value :: elements) :: stack, .value)
  | .object members key :: stack => some (stack, .key ((key, value) :: members))
  | [] => none

/-- What one token does to the values under way. There is none if the token must not stand here. -/
def advance (stack : List Frame) : Expect → Token → Option (List Frame × Expect)
  | .value, .scalar v | .firstElement, .scalar v => some (stack, .separator v)
  | .value, .openArray | .firstElement, .openArray => some (.array [] :: stack, .firstElement)
  | .value, .openObject | .firstElement, .openObject => some (stack, .firstKey [])
  | .firstElement, .closeArray =>
    match stack with
    | .array elements :: stack => some (stack, .separator (.array elements.reverse))
    | _ => none
  | .firstKey members, .closeObject => some (stack, .separator (.object members.reverse))
  | .firstKey members, .scalar (.string k) | .key members, .scalar (.string k) =>
    some (stack, .colon members k)
  | .colon members k, .colon => some (.object members k :: stack, .value)
  | .separator v, .comma => afterComma v stack
  | .separator v, .closeArray =>
    match stack with
    | .array elements :: stack => some (stack, .separator (.array (v :: elements).reverse))
    | _ => none
  | .separator v, .closeObject =>
    match stack with
    | .object members k :: stack => some (stack, .separator (.object ((k, v) :: members).reverse))
    | _ => none
  | _, _ => none

/-- The value that tokens make up, from a state on. -/
def assemble (stack : List Frame) (expect : Expect) : List Token → Option Json
  | [] =>
    match stack, expect with
    | [], .separator v => some v
    | _, _ => none
  | t :: rest =>
    match advance stack expect t with
    | some (stack, expect) => assemble stack expect rest
    | none => none

/-- The value that a text writes. -/
def parse? (text : String) : Option Json := (tokens? text).bind (assemble [] .value)

end Dvi.Json
