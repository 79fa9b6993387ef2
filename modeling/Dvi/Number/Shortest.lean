import Dvi.Number.Binary64

/-!
# The shortest text of a number

Among the decimals that read back as a given number, the shortest are those with the fewest digits, and of
these the nearest is taken. All numbers in the interval around the given one read back as it; the ends
belong to the interval if its fraction is even. For each count of digits it is enough to look at the two
neighbours of the number on the grid of such decimals.

* `Shortest.digits`: the decimal, as a whole number and a power of ten;
* `Shortest.text`: its layout, positional for moderate exponents.
-/

namespace Dvi.Shortest

/-- A quotient that is compared with others by cross multiplication. -/
structure Ratio where
  num : Nat
  den : Nat

/-- `m * 2 ^ q`. -/
def ofBinary (m : Nat) (q : Int) : Ratio := ⟨m <<< q.toNat, 1 <<< (-q).toNat⟩

/-- `d * 10 ^ e`. -/
def ofDecimal (d : Nat) (e : Int) : Ratio := ⟨d * Nat.pow 10 e.toNat, Nat.pow 10 (-e).toNat⟩

/-- A ratio is less than another. -/
def Ratio.lt (a b : Ratio) : Bool := a.num * b.den < b.num * a.den

/-- A ratio is at most another. -/
def Ratio.le (a b : Ratio) : Bool := !b.lt a

/-- How far apart two ratios are. One of the two differences is zero. -/
def Ratio.distance (a b : Ratio) : Ratio :=
  let x := a.num * b.den
  let y := b.num * a.den
  ⟨(x - y) + (y - x), a.den * b.den⟩

/-- The interval of quotients that round to `m * 2 ^ q`: both ends in units of `2 ^ (q - 2)`. Below the
least fraction of an exponent the numbers are twice as dense. -/
def interval (m : Nat) (q : Int) : Ratio × Ratio :=
  let below := if m = 1 <<< 52 && q > -1074 then 1 else 2
  (ofBinary (4 * m - below) (q - 2), ofBinary (4 * m + 2) (q - 2))

/-- A decimal rounds to `m * 2 ^ q`. -/
def readsBack (m : Nat) (q : Int) (r : Ratio) : Bool :=
  let (low, high) := interval m q
  if m % 2 = 0 then low.le r && r.le high else low.lt r && r.lt high

/-- The power of ten of the leading digit of a quotient that is not zero. -/
def leading (r : Ratio) : Int :=
  let guess : Int := (Nat.toDigits 10 r.num).length - (Nat.toDigits 10 r.den).length
  if (ofDecimal 1 guess).le r then guess else guess - 1

/-- The best decimal with digits down to `10 ^ e`, if one reads back. -/
def onGrid (m : Nat) (q : Int) (e : Int) : Option (Nat × Int) :=
  let x := ofBinary m q
  let low := x.num * Nat.pow 10 (-e).toNat / (x.den * Nat.pow 10 e.toNat)
  let hits := [low, low + 1].filter fun d => readsBack m q (ofDecimal d e)
  match hits with
  | [] => none
  | [d] => some (d, e)
  | d :: d' :: _ =>
    let near := (ofDecimal d e).distance x
    let far := (ofDecimal d' e).distance x
    some (if far.lt near || (!near.lt far && d % 2 = 1) then d' else d, e)

/-- The shortest decimal that reads back as `m * 2 ^ q`, for `m` not zero. Seventeen digits always do. -/
def digits (m : Nat) (q : Int) : Nat × Int :=
  let top := leading (ofBinary m q)
  ((List.range 17).findSome? fun n : Nat => onGrid m q (top - (n : Int))).getD (m, q)

/-- The digits of a decimal without the zeros at its end, and the power of ten of the last one. -/
def normalize (d : Nat) (e : Int) : List Char × Int :=
  let ds := Nat.toDigits 10 d
  let kept := (ds.reverse.dropWhile (· == '0')).reverse
  (kept, e + (ds.length - kept.length : Nat))

/-- The layout of digits: positional with a fraction when the point stands behind at most sixteen digits and
at most four zeros stand before the digits, otherwise one digit, a point, the others, and an exponent. -/
def layout (ds : List Char) (e : Int) : List Char :=
  let n : Int := ds.length
  let point := n + e
  if 0 ≤ e && point ≤ 16 then ds ++ List.replicate e.toNat '0' ++ ['.', '0']
  else if 0 < point && point ≤ 16 then ds.take point.toNat ++ '.' :: ds.drop point.toNat
  else if -5 < point && point ≤ 0 then '0' :: '.' :: List.replicate (-point).toNat '0' ++ ds
  else
    let mantissa := match ds with
      | d :: [] => [d]
      | d :: more => d :: '.' :: more
      | [] => []
    mantissa ++ 'e' :: (toString (point - 1)).toList

/-- The shortest text of a finite number. -/
def text (x : Binary64) : String :=
  let sign := if x.isNegative then "-" else ""
  let (m, q) := x.magnitude
  if m = 0 then sign ++ "0.0"
  else
    let (d, e) := digits m q
    let (ds, e) := normalize d e
    sign ++ String.ofList (layout ds e)

example : text (Binary64.ofRatio false 1 10) = "0.1" ∧ text (Binary64.ofRatio false 10 1) = "10.0" := by
  decide +kernel
example : text (Binary64.ofRatio true 1 (2 ^ 20)) = "-9.5367431640625e-7" := by decide +kernel

end Dvi.Shortest
