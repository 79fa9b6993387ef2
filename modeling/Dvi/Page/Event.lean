import Dvi.Stream.Command

/-!
# Pages

What is drawn on a page, in order, each thing with its position.
-/

namespace Dvi

-- bytes are compared as arrays
attribute [local instance (high)] ByteArray.instDecidableEq

/-- Something drawn on a page, or a change of font. -/
inductive Event where
  /-- the width is unknown if the font has no metrics for the code -/
  | char (placement : Placement) (h v : Int32) (font code : UInt32) (width : Option Int32)
  | rule (placement : Placement) (h v height width : Int32)
  | fontSelect (font : UInt32)
  | special (h v : Int32) (payload : ByteArray)
  deriving DecidableEq

/-- Only rules of positive height and width are drawn. -/
def ruleIsVisible (height width : Int32) : Bool := 0 < height && 0 < width

/-- A page: where it begins, its ten counts, the offset of the page before it, and what is drawn. -/
structure Page where
  offset : Nat
  counts : Vector Int32 10
  backPointer : Int32
  events : Array Event := #[]
  deriving DecidableEq

namespace Page

/-- The page number that typesetting prints. -/
def number (p : Page) : Int32 := p.counts[0]

/-- The character with a code, if there is one. -/
def charOfCode (code : UInt32) : Option Char :=
  if h : code.isValidChar then some ⟨code, h⟩ else none

/-- The characters of a page, by their codes. -/
def text (p : Page) : String :=
  String.ofList (p.events.toList.filterMap fun
    | .char _ _ _ _ code _ => charOfCode code
    | _ => none)

end Page

end Dvi
