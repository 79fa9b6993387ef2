import Dvi.Font.Metrics
import Mathlib.Tactic.IntervalCases
import Mathlib.Tactic.Ring

/-!
# Widths by bytes

TeX has no products of 64 bits. It multiplies a size by the bytes of a dimension one after the other, and a size that
is too large for that is halved first, so that its last bits are lost.

* `Bytewise.scaled`: this product; `Bytewise.lost`: the last bits of a size, which halving loses;
* `Bytewise.halve_eq`, `Bytewise.quotient_eq`: what the loop and the nested quotients come to;
* **`Bytewise.scaled_eq`**: the product is the exact one of the size without its last bits, rounded down;
* **`scaleFixWord_eq_bytewise_iff`**: so `scaleFixWord` gives the widths of TeX at the sizes that lose nothing, which
  are all sizes below `2 ^ 23` and above that the multiples of a power of two. At no other size it does for all
  dimensions.
-/

namespace Dvi

namespace Bytewise

/-- Sizes below this limit can be multiplied by a byte. -/
def limit : Nat := 2 ^ 23

/-- A size is halved until it is below the limit; `α` is doubled as often. -/
def halve (z α : Nat) : Nat × Nat :=
  if z < limit then (z, α) else halve (z / 2) (2 * α)
termination_by z
decreasing_by
  unfold limit at *
  omega

/-- Byte `i` of a dimension, the first being byte 0. -/
def byte (fw : Int32) (i : Nat) : Nat := fw.toBitVec.toNat / 256 ^ (3 - i) % 256

/-- The first byte shows that the dimension is at least `-16` and less than `16`. -/
def IsSmall (fw : Int32) : Prop := byte fw 0 = 0 ∨ byte fw 0 = 255

/-- The dimension `fw`, in units of `2 ^ -20`, at size `z`. -/
def scaled (z : Nat) (fw : Int32) : Int :=
  let (z, α) := halve z 16
  let β := 256 / α
  let sw := ((byte fw 3 * z / 256 + byte fw 2 * z) / 256 + byte fw 1 * z) / β
  if byte fw 0 = 0 then sw else (sw : Int) - α * z

/-- How often a size is halved. -/
def halvings (z : Nat) : Nat := z.log2 - 22

/-- What halving loses of a size. -/
def lost (z : Nat) : Nat := z % 2 ^ halvings z

theorem halvings_of_lt {z : Nat} (h : z < limit) : halvings z = 0 := by
  rcases Nat.eq_zero_or_pos z with rfl | hz
  · rfl
  · have hlog : z.log2 < 23 := (Nat.log2_lt hz.ne').2 h
    unfold halvings
    omega

theorem halvings_of_le {z : Nat} (h : limit ≤ z) : halvings z = halvings (z / 2) + 1 := by
  have hz : z ≠ 0 := by unfold limit at h; omega
  have hlog : ¬ z.log2 < 23 := fun hlt => absurd ((Nat.log2_lt hz).1 hlt) (Nat.not_lt.2 h)
  have hstep : z.log2 = (z / 2).log2 + 1 := by
    rw [Nat.log2_def, if_pos (by unfold limit at h; omega)]
  unfold halvings
  omega

theorem halvings_le {z : Nat} (h : z < 2 ^ 27) : halvings z ≤ 4 := by
  rcases Nat.eq_zero_or_pos z with rfl | hz
  · exact Nat.zero_le _
  · have hlog : z.log2 < 27 := (Nat.log2_lt hz.ne').2 h
    unfold halvings
    omega

theorem halve_eq (z α : Nat) : halve z α = (z / 2 ^ halvings z, 2 ^ halvings z * α) := by
  fun_induction halve z α with
  | case1 z α h => simp [halvings_of_lt h]
  | case2 z α h ih =>
    rw [ih, halvings_of_le (Nat.not_lt.1 h), Nat.div_div_eq_div_mul, ← Nat.pow_succ', ← Nat.mul_assoc,
      ← Nat.pow_succ]

/-- Quotients within quotients are one quotient of the number that the three bytes write. -/
theorem quotient_eq (z b c d β : Nat) : ((d * z / 256 + c * z) / 256 + b * z) / β =
    (65536 * b + 256 * c + d) * z / (65536 * β) := by
  have hinner : d * z / 256 + c * z = (d * z + c * z * 256) / 256 :=
    (Nat.add_mul_div_right _ _ (by decide)).symm
  have houter : (d * z + c * z * 256) / 256 / 256 + b * z = (d * z + c * z * 256 + b * z * 65536) / 65536 := by
    rw [Nat.div_div_eq_div_mul]
    exact (Nat.add_mul_div_right _ _ (by decide)).symm
  rw [hinner, houter, Nat.div_div_eq_div_mul]
  congr 1
  ring

theorem toInt_eq {fw : Int32} (h : IsSmall fw) : fw.toInt =
    ((65536 * byte fw 1 + 256 * byte fw 2 + byte fw 3 : Nat) : Int) - if byte fw 0 = 0 then 0 else 2 ^ 24 := by
  have hbits : fw.toInt = if 2 * fw.toBitVec.toNat < 2 ^ 32 then (fw.toBitVec.toNat : Int)
      else fw.toBitVec.toNat - (2 ^ 32 : Nat) := by
    rw [← Int32.toInt_toBitVec, BitVec.toInt_eq_toNat_cond]
  have hlt : fw.toBitVec.toNat < 2 ^ 32 := fw.toBitVec.isLt
  obtain h | h := h
  · rw [if_pos h, hbits]
    simp only [byte] at h ⊢
    rw [if_pos (by omega)]
    omega
  · rw [if_neg (by omega), hbits]
    simp only [byte] at h ⊢
    rw [if_neg (by omega)]
    omega

/-- What is left of a size is a multiple of what it was divided by. -/
theorem sub_lost (z : Nat) : z / 2 ^ halvings z * 2 ^ halvings z = z - lost z := by
  have hdiv := Nat.div_add_mod z (2 ^ halvings z)
  rw [Nat.mul_comm] at hdiv
  unfold lost
  omega

/-- **The product by bytes is that of what is left of the size, rounded down.** -/
theorem scaled_eq {z : Nat} (hz : z < 2 ^ 27) {fw : Int32} (hfw : IsSmall fw) :
    scaled z fw = (z - lost z : Nat) * fw.toInt / 2 ^ 20 := by
  -- The last quotient makes up for the halvings, of which there are so few that all divisions are exact.
  have hβ : 65536 * (256 / (2 ^ halvings z * 16)) * 2 ^ halvings z = 2 ^ 20 := by
    have hle := halvings_le hz
    interval_cases halvings z <;> rfl
  have hsw (F : Nat) : F * (z / 2 ^ halvings z) / (65536 * (256 / (2 ^ halvings z * 16))) =
      (z - lost z) * F / 2 ^ 20 := by
    rw [← Nat.mul_div_mul_right _ _ (Nat.two_pow_pos (halvings z)), hβ, Nat.mul_assoc, sub_lost, Nat.mul_comm]
  have hα : ((2 ^ halvings z * 16 : Nat) : Int) * ((z / 2 ^ halvings z : Nat) : Int) = 16 * (z - lost z : Nat) := by
    rw [← sub_lost]
    push_cast
    ring
  simp only [scaled, halve_eq, quotient_eq, hsw, hα]
  rw [toInt_eq hfw]
  split
  · rw [Int.sub_zero]
    norm_cast
  · rename_i ha
    set y : Nat := z - lost z
    set F : Nat := 65536 * byte fw 1 + 256 * byte fw 2 + byte fw 3
    have hsplit : (y : Int) * (F - 2 ^ 24) = y * F + -(16 * y) * 2 ^ 20 := by ring
    rw [hsplit, Int.add_mul_ediv_right _ _ (by decide), ← Int.sub_eq_add_neg]
    norm_cast

theorem mul_toInt_bounds (n : Nat) {fw : Int32} (h : IsSmall fw) :
    -2 ^ 24 * (n : Int) ≤ n * fw.toInt ∧ n * fw.toInt ≤ (2 ^ 24 - 1) * (n : Int) := by
  have hbyte (i : Nat) : byte fw i < 256 := Nat.mod_lt _ (by decide)
  have h₁ := hbyte 1
  have h₂ := hbyte 2
  have h₃ := hbyte 3
  have hbounds : -2 ^ 24 ≤ fw.toInt ∧ fw.toInt ≤ 2 ^ 24 - 1 := by
    rw [toInt_eq h]
    split <;> omega
  rw [Int.mul_comm n]
  exact ⟨Int.mul_le_mul_of_nonneg_right hbounds.1 (Int.natCast_nonneg n),
    Int.mul_le_mul_of_nonneg_right hbounds.2 (Int.natCast_nonneg n)⟩

theorem toInt_scaleFixWord {z : Nat} (hz : z < 2 ^ 27) {fw : Int32} (hfw : IsSmall fw) :
    (scaleFixWord (Int32.ofNat z) fw).toInt = z * fw.toInt / 2 ^ 20 := by
  have hmul := mul_toInt_bounds z hfw
  have hsize : (Int32.ofNat z).toInt = z := Int32.toInt_ofNat_of_lt (by omega)
  have hproduct : -2 ^ 31 ≤ (z : Int) * fw.toInt / 2 ^ 20 ∧ (z : Int) * fw.toInt / 2 ^ 20 < 2 ^ 31 := by omega
  have hmin : Int32.minValue.toInt = -2 ^ 31 := Int32.toInt_minValue
  have hmax : Int32.maxValue.toInt = 2 ^ 31 - 1 := Int32.toInt_maxValue
  have hclamp : max Int32.minValue.toInt (min Int32.maxValue.toInt ((z : Int) * fw.toInt / 2 ^ 20)) =
      z * fw.toInt / 2 ^ 20 := by
    rw [hmin, hmax]
    omega
  have hunit : ((1 <<< 20 : Nat) : Int) = 2 ^ 20 := rfl
  simp only [scaleFixWord, hsize, hunit, hclamp]
  exact Int32.toInt_ofInt_of_le hproduct.1 hproduct.2

/-- One, as a dimension. -/
def unity : Int32 := 2 ^ 20

theorem isSmall_unity : IsSmall unity := .inl (by decide)

end Bytewise

open Bytewise in
/-- **A size has the widths of TeX for all dimensions exactly if halving loses nothing of it.** In any case the widths
of TeX are those of the size without what halving loses, and they differ from those of the size by 16 units at most for
each unit lost. -/
theorem scaleFixWord_eq_bytewise_iff {z : Nat} (hz : z < 2 ^ 27) :
    ((∀ fw, IsSmall fw → (scaleFixWord (Int32.ofNat z) fw).toInt = scaled z fw) ↔ lost z = 0) ∧
    (z < limit → lost z = 0) ∧
    ∀ fw, IsSmall fw → scaled z fw = (scaleFixWord (Int32.ofNat (z - lost z)) fw).toInt ∧
      |(scaleFixWord (Int32.ofNat z) fw).toInt - scaled z fw| ≤ 16 * lost z := by
  refine ⟨⟨fun h => ?_, fun h fw hfw => ?_⟩, fun h => ?_, fun fw hfw => ⟨?_, ?_⟩⟩
  · -- At the dimension one, what is lost of the size is lost of the product.
    have hone := h unity isSmall_unity
    rw [toInt_scaleFixWord hz isSmall_unity, scaled_eq hz isSmall_unity] at hone
    have hunity : unity.toInt = 2 ^ 20 := by decide
    have hle : lost z ≤ z := Nat.mod_le _ _
    rw [hunity] at hone
    omega
  · rw [toInt_scaleFixWord hz hfw, scaled_eq hz hfw, h, Nat.sub_zero]
  · rw [lost, halvings_of_lt h, Nat.pow_zero, Nat.mod_one]
  · rw [scaled_eq hz hfw, toInt_scaleFixWord (by omega) hfw]
  · have hle : lost z ≤ z := Nat.mod_le _ _
    have hmul := mul_toInt_bounds (lost z) hfw
    have hsplit : (z : Int) * fw.toInt = (z - lost z : Nat) * fw.toInt + lost z * fw.toInt := by
      rw [← Int.add_mul, ← Int.natCast_add, Nat.sub_add_cancel hle]
    rw [scaled_eq hz hfw, toInt_scaleFixWord hz hfw, hsplit, abs_le]
    constructor <;> omega

open Bytewise in
/-- At a size of ten points a small negative dimension is rounded down by both. -/
theorem scaleFixWord_eq_bytewise_tenPoints : 655360 < 2 ^ 27 ∧ IsSmall (-3) ∧ lost 655360 = 0 ∧
    (scaleFixWord (Int32.ofNat 655360) (-3)).toInt = scaled 655360 (-3) ∧ scaled 655360 (-3) = -2 := by
  have hsize : 655360 < 2 ^ 27 := by decide
  have hsmall : IsSmall (-3) := .inr (by decide)
  have hlost : lost 655360 = 0 := by decide +kernel
  have heq := (scaleFixWord_eq_bytewise_iff hsize).1.2 hlost (-3) hsmall
  exact ⟨hsize, hsmall, hlost, heq, heq.symm.trans (by decide)⟩

open Bytewise in
/-- At the least size of which halving loses something, TeX makes the dimension one a unit smaller. -/
theorem scaleFixWord_ne_bytewise_oddSize : 0 < 8388609 ∧ 8388609 < 2 ^ 27 ∧ IsSmall unity ∧
    (scaleFixWord (Int32.ofNat 8388609) unity).toInt = 8388609 ∧ scaled 8388609 unity = 8388608 := by
  refine ⟨by decide, by decide, isSmall_unity, by decide, ?_⟩
  simp only [scaled, halve_eq]
  decide +kernel

end Dvi
