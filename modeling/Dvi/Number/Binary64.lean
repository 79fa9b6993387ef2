import Dvi.Number.Rounding

/-!
# Numbers of 64 bits

A `Binary64` is a floating-point number by its bits: a sign, eleven bits of exponent and 52 of fraction.
All that is needed of arithmetic is the number nearest to a quotient, so everything is exact arithmetic on
natural numbers.

* `Binary64.ofRatio`: the nearest number to a quotient, a tie going to the even fraction;
* `Binary64.magnitude`: a finite number as a whole multiple of a power of two.
-/

namespace Dvi

/-- A floating-point number of 64 bits. -/
structure Binary64 where
  bits : UInt64
  deriving DecidableEq, Repr, Inhabited

namespace Binary64

/-- The bits of infinity, as a number. -/
def infinityBits : Nat := 2047 <<< 52

/-- The number with a sign and the other bits. -/
def ofBits (negative : Bool) (rest : Nat) : Binary64 :=
  ⟨UInt64.ofNat (if negative then (1 <<< 63) + rest else rest)⟩

/-- An infinity of either sign. -/
def infinity (negative : Bool) : Binary64 := ofBits negative infinityBits

/-- The value that is no number. -/
def nan : Binary64 := ofBits false (infinityBits + (1 <<< 51))

/-- The bits without the sign. -/
def rest (x : Binary64) : Nat := x.bits.toNat % (1 <<< 63)

/-- The sign bit is set. -/
def isNegative (x : Binary64) : Bool := x.bits.toNat ≥ 1 <<< 63

/-- The value is no number. -/
def isNaN (x : Binary64) : Bool := x.rest > infinityBits

/-- The number is greater than zero. -/
def isPositive (x : Binary64) : Bool := !x.isNegative && 0 < x.rest && !x.isNaN

/-- The greatest `k` with `2 ^ k ≤ num / den`. -/
def ratioLog2 (num den : Nat) : Int :=
  let k : Int := (num.log2 : Int) - (den.log2 : Int)
  if den <<< k.toNat ≤ num <<< (-k).toNat then k else k - 1

/-- The number nearest to `num / den`. The fraction has 53 bits, fewer only at the lowest exponent. Bits
past those of infinity stand for infinity. -/
def ofRatio (negative : Bool) (num den : Nat) : Binary64 :=
  if num = 0 then ofBits negative 0
  else
    let e := max (ratioLog2 num den - 52) (-1074)
    let fraction := roundDiv (num <<< (-e).toNat) (den <<< e.toNat)
    ofBits negative (min (((e + 1074).toNat <<< 52) + fraction) infinityBits)

/-- The nearest value to a ratio of integers. -/
def ofIntRatio (num den : Int) : Binary64 :=
  ofRatio ((num < 0) != (den < 0)) num.natAbs den.natAbs

/-- The value of one. -/
def one : Binary64 := ofRatio false 1 1

/-- A finite number without its sign: a whole number `m` and an exponent `q` that stand for `m * 2 ^ q`. -/
def magnitude (x : Binary64) : Nat × Int :=
  let exponent : Nat := x.rest >>> 52
  let fraction : Nat := x.rest % (1 <<< 52)
  if exponent = 0 then (fraction, -1074) else (fraction + (1 <<< 52), (exponent : Int) - 1075)

example : one.bits = 0x3ff0000000000000 ∧ (ofRatio true 1 10).bits = 0xbfb999999999999a := by
  decide +kernel
example : (ofRatio false 1 (2 ^ 1074)).bits = 1 ∧ (ofRatio false 1 (2 ^ 1075)).bits = 0 := by
  decide +kernel

end Binary64

end Dvi
