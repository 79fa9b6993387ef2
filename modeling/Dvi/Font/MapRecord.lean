import Dvi.Number.Decimal
import Dvi.Table

/-!
# Font map records

A font map says, for the name of a font in a stream, which encoding, font and file stand behind it, and how
the font is to be drawn. Drawing options are kept by flag; a flag that is written without value has the empty
text.
-/

namespace Dvi

/-- What a font map says of one font. -/
structure MapRecord where
  texName : String
  encoding : Option String := none
  fontName : Option String := none
  file : Option String := none
  options : Table String String := {}

namespace MapRecord

/-- The file behind the font, or else its own name, or else the name in the stream. -/
def fileOrName (r : MapRecord) : String := (r.file <|> r.fontName).getD r.texName

/-- The options in the order of their flags. -/
def sortedOptions (r : MapRecord) : List (String × String) :=
  r.options.entries.mergeSort fun a b => decide (a.1 ≤ b.1)

/-- The number that an option writes, for example slant or extension. -/
def numericOption (r : MapRecord) (flag : String) : Option Binary64 :=
  (r.options.find? flag).bind Binary64.ofText

/-- Sets an option. The value that it had before is gone. -/
def setOption (r : MapRecord) (flag value : String) : MapRecord :=
  { r with options := r.options.insert flag value }

/-- The record with an encoding set. Three texts stand for no encoding. -/
def setEncoding (r : MapRecord) (name : String) : MapRecord :=
  { r with encoding := if name == "" || name == "default" || name == "none" then none else some name }

end MapRecord

end Dvi
