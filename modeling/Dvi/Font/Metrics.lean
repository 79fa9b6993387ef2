import Dvi.Number.Binary64

/-!
# Font metrics

The metrics of a font say how large its characters are, as fractions of the size that the font was designed at.

* `Metrics.char?`: the dimensions of a character;
* `scaleFixWord`: a dimension at the size of a font. **The product is rounded down.**
* `MetricsDefect`: what can be wrong with a file of metrics.
-/

namespace Dvi

/-- The dimension `fw`, in units of `2 ^ -20` of the design size, at size `scale`. -/
def scaleFixWord (scale fw : Int32) : Int32 :=
  let product := scale.toInt * fw.toInt / (1 <<< 20 : Nat)
  Int32.ofInt (max Int32.minValue.toInt (min Int32.maxValue.toInt product))

/-- Width, height and depth of a character, in units of `2 ^ -20` of the design size. -/
structure CharMetrics where
  width : Int32
  height : Int32
  depth : Int32
  deriving DecidableEq, Repr

/-- The metrics of one font. -/
structure Metrics where
  name : String
  checksum : UInt32
  /-- in points, in units of `2 ^ -20` -/
  designSize : Int32
  /-- the code of the first entry of `chars` -/
  firstChar : Nat
  chars : Array (Option CharMetrics)
  deriving DecidableEq, Repr

/-- What is wrong with a metrics file. -/
inductive MetricsDefect where
  | tooShort (bytes : Nat)
  | smallHeader (words : Nat)
  | badRange (first last : Nat)
  | emptyTable
  | wrongLength (declared needed : Nat)
  | incomplete (declared present : Nat)
  | badIndex (code : Nat)
  deriving DecidableEq, Repr

/-- The text of what is wrong with a file. -/
def MetricsDefect.message : MetricsDefect → String
  | .tooShort bytes => s!"file too short ({bytes} bytes)"
  | .smallHeader words => s!"header length {words} too small"
  | .badRange first last => s!"bad character range bc={first} ec={last}"
  | .emptyTable => "empty dimension table"
  | .wrongLength declared needed => s!"length {declared} words, tables need {needed}"
  | .incomplete declared present => s!"declares {declared} bytes but only {present} present"
  | .badIndex code => s!"char_info for code {code} indexes past dimension tables"

namespace Metrics

/-- The dimensions of a character, if the font has it. -/
def char? (m : Metrics) (code : UInt32) : Option CharMetrics :=
  if m.firstChar ≤ code.toNat then (m.chars[code.toNat - m.firstChar]?).join else none

/-- The width of a character, in units of the design size. -/
def width? (m : Metrics) (code : UInt32) : Option Int32 := (m.char? code).map (·.width)

/-- The width of a character in a font of size `scale`. -/
def scaledWidth? (m : Metrics) (code : UInt32) (scale : Int32) : Option Int32 :=
  (m.width? code).map (scaleFixWord scale)

/-- The design size in points. -/
def designPoints (m : Metrics) : Binary64 := .ofIntRatio m.designSize.toInt (1 <<< 20 : Nat)

/-- The number of characters that the font has. -/
def charCount (m : Metrics) : Nat := m.chars.countP Option.isSome

end Metrics

end Dvi
