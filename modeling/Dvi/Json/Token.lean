import Dvi.Json.Basic

/-!
# JSON tokens

A text is taken apart character by character. Strings are decoded on the way; numbers and words are collected
and checked at their end.

* `Json.Token`, `Json.tokens?`: the tokens of a text, or nothing if it is ill-formed.
-/

namespace Dvi.Json

/-- A sign, or a value that is neither array nor object. -/
inductive Token where
  | openArray
  | closeArray
  | openObject
  | closeObject
  | comma
  | colon
  | scalar (value : Json)

/-! ## Strings -/

/-- A string under way: its characters in reverse, whether half a surrogate pair was met, and the first half
of a pair if that came last. -/
structure Reading where
  chars : List Char := []
  broken : Bool := false
  high : Option Nat := none

namespace Reading

/-- Adds a character to a text. Half of a pair that waits for the other half is not a character. -/
def push (r : Reading) (c : Char) : Reading :=
  { chars := c :: r.chars, broken := r.broken || r.high.isSome }

/-- The string with one more unit of 16 bits. Two halves of a surrogate pair make one character. -/
def pushUnit (r : Reading) (u : Nat) : Reading :=
  if 0xD800 ≤ u && u ≤ 0xDBFF then { r with broken := r.broken || r.high.isSome, high := some u }
  else if 0xDC00 ≤ u && u ≤ 0xDFFF then
    match r.high with
    | some h =>
      { r with chars := Char.ofNat (0x10000 + (h - 0xD800) * 0x400 + (u - 0xDC00)) :: r.chars, high := none }
    | none => { r with broken := true }
  else r.push (Char.ofNat u)

/-- The text of the string, if it has one. -/
def text (r : Reading) : Option String :=
  if r.broken || r.high.isSome then none else some (String.ofList r.chars.reverse)

end Reading

/-- The value of a hexadecimal digit in either case. -/
def hexDigit? (c : Char) : Option Nat :=
  if c.isDigit then some (c.toNat - '0'.toNat)
  else if 'a' ≤ c && c ≤ 'f' then some (c.toNat - 'a'.toNat + 10)
  else if 'A' ≤ c && c ≤ 'F' then some (c.toNat - 'A'.toNat + 10)
  else none

/-- The character that a backslash and a letter stand for. -/
def escape? (c : Char) : Option Char :=
  match c with
  | '"' => some '"'
  | '\\' => some '\\'
  | '/' => some '/'
  | 'b' => some '\x08'
  | 'f' => some '\x0c'
  | 'n' => some '\n'
  | 'r' => some '\r'
  | 't' => some '\t'
  | _ => none

/-! ## Numbers and words -/

/-- The exponent of a number: nothing, or the letter, an optional sign and digits. -/
def isExponent : List Char → Bool
  | [] => true
  | c :: rest =>
    let digits := match rest with
      | '+' :: ds | '-' :: ds => ds
      | ds => ds
    (c == 'e' || c == 'E') && digits != [] && digits.all Char.isDigit

/-- The fraction and exponent of a number. -/
def isTail : List Char → Bool
  | '.' :: rest => rest.takeWhile Char.isDigit != [] && isExponent (rest.dropWhile Char.isDigit)
  | rest => isExponent rest

/-- The form of a number: digits without a zero in front, after an optional minus sign, with a fraction and an
exponent that may be missing. -/
def isNumber (cs : List Char) : Bool :=
  let body := match cs with
    | '-' :: rest => rest
    | cs => cs
  match body with
  | '0' :: rest => isTail rest
  | c :: rest => c.isDigit && isTail (rest.dropWhile Char.isDigit)
  | [] => false

/-- A character can stand in a number. -/
def isNumberChar (c : Char) : Bool := c.isDigit || c == '-' || c == '+' || c == '.' || c == 'e' || c == 'E'

/-- A character at the start of a number. -/
def startsNumber (c : Char) : Bool := c.isDigit || c == '-'

/-- The value of a word that is not in quotes. -/
def word? (s : String) : Option Json :=
  match s with
  | "null" => some .null
  | "true" => some (.bool true)
  | "false" => some (.bool false)
  | _ => none

/-! ## Tokens -/

/-- Where the reader of tokens stands. What was read of a number or a word is in reverse. -/
inductive Scan where
  | between
  | string (r : Reading)
  | escape (r : Reading)
  /-- in an escape with `missing` digits to come -/
  | unit (r : Reading) (missing value : Nat)
  | number (read : List Char)
  | word (read : List Char)

/-- The tokens that a character outside strings, numbers and words completes, and the state after it. -/
def start (c : Char) : Option (List Token × Scan) :=
  match c with
  | ' ' | '\n' | '\t' | '\r' => some ([], .between)
  | '[' => some ([.openArray], .between)
  | ']' => some ([.closeArray], .between)
  | '\x7b' => some ([.openObject], .between)
  | '\x7d' => some ([.closeObject], .between)
  | ',' => some ([.comma], .between)
  | ':' => some ([.colon], .between)
  | '"' => some ([], .string {})
  | c =>
    if startsNumber c then some ([], .number [c])
    else if c.isAlpha then some ([], .word [c])
    else none

/-- The token of a number or word that has ended. -/
def finish : Scan → Option (List Token)
  | .between => some []
  | .number read =>
    if isNumber read.reverse then some [.scalar (.number (String.ofList read.reverse))] else none
  | .word read => (word? (String.ofList read.reverse)).map fun v => [.scalar v]
  | _ => none

/-- The tokens that a character completes, and the state after it. -/
def next (s : Scan) (c : Char) : Option (List Token × Scan) :=
  match s with
  | .string r =>
    if c = '"' then some ([.scalar (.string r.text)], .between)
    else if c = '\\' then some ([], .escape r)
    else if c.toNat < 0x20 then none
    else some ([], .string (r.push c))
  | .escape r =>
    if c = 'u' then some ([], .unit r 4 0) else (escape? c).map fun e => ([], .string (r.push e))
  | .unit r missing value =>
    (hexDigit? c).map fun d =>
      let value := 16 * value + d
      ([], if missing ≤ 1 then .string (r.pushUnit value) else .unit r (missing - 1) value)
  | .number read =>
    if isNumberChar c then some ([], .number (c :: read))
    else do
      let ended ← finish s
      let (tokens, s) ← start c
      return (ended ++ tokens, s)
  | .word read =>
    if c.isAlpha then some ([], .word (c :: read))
    else do
      let ended ← finish s
      let (tokens, s) ← start c
      return (ended ++ tokens, s)
  | .between => start c

/-- The tokens of characters, when others have been read before them. -/
def tokensFrom (s : Scan) : List Char → Option (List Token)
  | [] => finish s
  | c :: rest =>
    match next s c with
    | some (tokens, s) => (tokensFrom s rest).map (tokens ++ ·)
    | none => none

/-- The tokens of a text. -/
def tokens? (text : String) : Option (List Token) := tokensFrom .between text.toList

end Dvi.Json
