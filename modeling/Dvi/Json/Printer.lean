import Dvi.Json.Basic

/-!
# Writing JSON

Values are written over several lines: each element and member stands on a line of its own, indented by two
spaces more than what it belongs to. Empty arrays and objects stay on one line.

A value is written in pieces: signs, steps of an indentation, and stretches of text between escapes.

* `Json.quoted`: the pieces of a string in quotes. **Only quotes, backslashes and control characters are
  escaped**;
* `Json.pieces`, `Json.pretty`: the pieces of a value, and its text.
-/

namespace Dvi.Json

/-- A hexadecimal digit, in lower case. -/
def hexChar (n : Nat) : Char := Nat.digitChar n

/-- How a character is escaped, if it cannot stand in a string as it is. -/
def escapeOf (c : Char) : Option String :=
  match c with
  | '"' => some "\\\""
  | '\\' => some "\\\\"
  | '\x08' => some "\\b"
  | '\x0c' => some "\\f"
  | '\n' => some "\\n"
  | '\r' => some "\\r"
  | '\t' => some "\\t"
  | c =>
    if c.toNat < 0x20 then
      some (String.ofList ['\\', 'u', '0', '0', hexChar (c.toNat / 16), hexChar (c.toNat % 16)])
    else none

/-- The stretches of a text and the escapes between them. `run` holds the stretch read so far in reverse. -/
def stretches (run : List Char) : List Char → List String
  | [] => [String.ofList run.reverse]
  | c :: rest =>
    match escapeOf c with
    | some e => String.ofList run.reverse :: e :: stretches [] rest
    | none => stretches (c :: run) rest

/-- A text in quotes, with escapes where it needs them. -/
def quoted (s : String) : List String := "\"" :: (stretches [] s.toList ++ ["\""])

/-- The blanks before a line at a level. -/
def indentation (level : Nat) : List String := List.replicate level "  "

/-- Items on lines of their own between an opening and a closing sign. -/
def block (opening closing : String) (level : Nat) : List (List String) → List String
  | [] => [opening, closing]
  | first :: rest =>
    opening :: "\n" :: indentation (level + 1) ++ first ++
      rest.flatMap (fun item => ",\n" :: indentation (level + 1) ++ item) ++
      "\n" :: indentation level ++ [closing]

mutual

/-- A value in an indentation of `level` steps. -/
def piecesAt (level : Nat) : Json → List String
  | .null => ["null"]
  | .bool b => [if b then "true" else "false"]
  | .number literal => [literal]
  | .string text => quoted (text.getD "")
  | .array elements => block "[" "]" level (elementPieces (level + 1) elements)
  | .object members => block "\x7b" "\x7d" level (memberPieces (level + 1) members)

/-- The elements of an array, each as it stands on its line. -/
def elementPieces (level : Nat) : List Json → List (List String)
  | [] => []
  | v :: rest => piecesAt level v :: elementPieces level rest

/-- The members of an object, each as it stands on its line. -/
def memberPieces (level : Nat) : List (Option String × Json) → List (List String)
  | [] => []
  | (k, v) :: rest => (quoted (k.getD "") ++ ": " :: piecesAt level v) :: memberPieces level rest

end

/-- A value as it is printed, in pieces. -/
def pieces (v : Json) : List String := piecesAt 0 v

/-- A value as it is printed. -/
def pretty (v : Json) : String := String.join v.pieces

end Dvi.Json
