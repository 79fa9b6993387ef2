import Dvi.Font.MapRecord
import Dvi.Page.Event
import Dvi.Table

/-!
# Documents

Everything that was read from one stream.
-/

namespace Dvi

/-- What a stream holds. Fonts are in the order in which they were first defined. -/
structure Document where
  preamble : Option Preamble := none
  postamble : Option Postamble := none
  pages : List Page := []
  fonts : Table UInt32 FontDefinition := {}
  /-- the font map records of the fonts, by font name -/
  fontMap : Table String MapRecord := {}

namespace Document

/-- The definition of a font number. -/
def font? (d : Document) (id : UInt32) : Option FontDefinition := d.fonts.find? id

/-- The stream was read to its last command. -/
def isComplete (d : Document) : Bool := d.postamble.any (·.id.isSome)

end Document

end Dvi
