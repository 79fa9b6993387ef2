import Dvi.Number.Binary64

/-!
# Font definitions

What a font definition in a stream says of a font.
-/

namespace Dvi

/-- A font as a stream defines it: a number for it, a check sum, the size at which it is used and the size
for which it was designed, where its files are kept, and its name. -/
structure FontDefinition where
  id : UInt32
  checksum : UInt32
  scale : Int32
  designSize : Int32
  area : String
  name : String
  /-- the offset of the opcode that defines it -/
  offset : Nat
  deriving DecidableEq, Repr

namespace FontDefinition

/-- Two definitions agree on everything but the number and the place. -/
def sameFont (a b : FontDefinition) : Bool :=
  a.checksum == b.checksum && a.scale == b.scale && a.designSize == b.designSize &&
    a.area == b.area && a.name == b.name

/-- The size of use as a multiple of the design size; one if there is no design size. -/
def sizeRatio (f : FontDefinition) : Binary64 :=
  if f.designSize = 0 then .one else .ofIntRatio f.scale.toInt f.designSize.toInt

end FontDefinition

end Dvi
