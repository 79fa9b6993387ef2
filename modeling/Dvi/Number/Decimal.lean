import Dvi.Number.Binary64

/-!
# Numbers in text

Two grammars: whole numbers with an optional plus sign, and decimal numbers with an optional sign, a point
and an exponent. The names of infinity and of the undefined number count as decimal numbers, in capitals or
small letters. A decimal number reads as the nearest number of 64 bits.
-/

namespace Dvi

/-- The number that decimal digits write. -/
def digitsValue (ds : List Char) : Nat := ds.foldl (fun v d => 10 * v + (d.toNat - '0'.toNat)) 0

/-- A whole number below `bound`. -/
def wholeNumber? (bound : Nat) (text : String) : Option Nat :=
  let digits := match text.toList with
    | '+' :: rest => rest
    | cs => cs
  if digits != [] && digits.all Char.isDigit && digitsValue digits < bound then
    some (digitsValue digits)
  else none

namespace Binary64

/-- The number nearest to `digits * 10 ^ exponent`. The leading digit of such a number stands at a power of
ten that is far from the range of numbers, or the number is a quotient of moderate size. -/
def ofDecimal (negative : Bool) (digits : Nat) (exponent : Int) : Binary64 :=
  let top : Int := (Nat.toDigits 10 digits).length + exponent
  if digits = 0 || top < -330 then ofBits negative 0
  else if top > 310 then infinity negative
  else ofRatio negative (digits * Nat.pow 10 exponent.toNat) (Nat.pow 10 (-exponent).toNat)

/-- A sign in front of a text: whether it is a minus sign, and the rest. -/
def splitSign : List Char → Bool × List Char
  | '+' :: rest => (false, rest)
  | '-' :: rest => (true, rest)
  | cs => (false, cs)

/-- An exponent: nothing, or the letter, an optional sign and digits. -/
def exponent? : List Char → Option Int
  | [] => some 0
  | c :: rest =>
    let (negative, digits) := splitSign rest
    if (c == 'e' || c == 'E') && digits != [] && digits.all Char.isDigit then
      some (if negative then -(digitsValue digits : Int) else digitsValue digits)
    else none

/-- A number without sign: digits, of which some may follow a point, and an exponent. -/
def unsigned? (negative : Bool) (cs : List Char) : Option Binary64 :=
  let whole := cs.takeWhile Char.isDigit
  let (fraction, tail) := match cs.dropWhile Char.isDigit with
    | '.' :: rest => (rest.takeWhile Char.isDigit, rest.dropWhile Char.isDigit)
    | rest => ([], rest)
  if whole == [] && fraction == [] then none
  else
    (exponent? tail).map fun e =>
      ofDecimal negative (digitsValue (whole ++ fraction)) (e - fraction.length)

/-- The value nearest to the number that a text writes, with the words for infinity and for no number. -/
def ofText (text : String) : Option Binary64 :=
  let (negative, body) := splitSign text.toList
  let word := String.ofList (body.map Char.toLower)
  if word == "inf" || word == "infinity" then some (infinity negative)
  else if word == "nan" then some nan
  else unsigned? negative body

example : (ofText "-.5e1").map bits = some 0xc014000000000000 ∧ ofText "." = none ∧ ofText "1e" = none ∧
    (ofText "9007199254740993").map bits = some 0x4340000000000000 := by decide +kernel

end Binary64

end Dvi
