/-!
# Rounding a quotient

The nearest whole number to a quotient of two natural numbers; of two that are equally near, the even one.

Main statements: **`roundDiv_near`** (the result is at most half a unit off) and **`even_roundDiv_of_tie`**.
-/

namespace Dvi

/-- The whole number nearest to `num / den`; a tie goes to the even one. -/
def roundDiv (num den : Nat) : Nat :=
  let q := num / den
  let r := num % den
  if 2 * r > den || (2 * r == den && q % 2 == 1) then q + 1 else q

/-- Rounding is off by half a unit at most. -/
theorem roundDiv_near (num den : Nat) (h : 0 < den) :
    2 * num ≤ (2 * roundDiv num den + 1) * den ∧ (2 * roundDiv num den) * den ≤ 2 * num + den := by
  have e := Nat.div_add_mod num den
  have l := Nat.mod_lt num h
  have e₁ : ∀ k, (2 * k + 1) * den = 2 * (k * den) + den := fun k => by
    rw [Nat.add_mul, Nat.mul_assoc, Nat.one_mul]
  have e₂ : ∀ k, 2 * k * den = 2 * (k * den) := fun k => Nat.mul_assoc 2 k den
  have e₃ : (num / den + 1) * den = num / den * den + den := Nat.succ_mul _ _
  rw [Nat.mul_comm] at e
  unfold roundDiv
  dsimp only
  split <;> rename_i c <;>
    simp only [Bool.or_eq_true, decide_eq_true_eq, Bool.and_eq_true, beq_iff_eq] at c <;>
    rw [e₁, e₂] <;> omega

/-- A quotient halfway between two whole numbers goes to the even one. -/
theorem even_roundDiv_of_tie (num den : Nat) (h : 2 * (num % den) = den) :
    roundDiv num den % 2 = 0 := by
  unfold roundDiv
  dsimp only
  split <;> rename_i c <;>
    simp only [Bool.or_eq_true, decide_eq_true_eq, Bool.and_eq_true, beq_iff_eq] at c <;> omega

/-- The pieces of a number `num / den` with `places` digits after the point, in front of it a minus sign if
`negative`. Zeros that open the fraction of a number without a whole part are a piece of their own. -/
def fixedPieces (places : Nat) (negative : Bool) (num den : Nat) : List String :=
  let unit := Nat.pow 10 places
  let scaled := roundDiv (num * unit) den
  let whole := scaled / unit
  let digits := if scaled % unit = 0 then [] else Nat.toDigits 10 (scaled % unit)
  let zeros := List.replicate (places - digits.length) '0'
  (if negative then ["-"] else []) ++
    if whole = 0 then ["0.", String.ofList zeros, String.ofList digits]
    else [toString whole, ".", String.ofList (zeros ++ digits)]

example : fixedPieces 2 false 8192 65536 = ["0.", "", "12"] ∧
    fixedPieces 2 false 24576 65536 = ["0.", "", "38"] ∧
    fixedPieces 2 true 1 65536 = ["-", "0.", "00", ""] ∧
    fixedPieces 2 false 655360 65536 = ["10", ".", "00"] := by decide +kernel

end Dvi
