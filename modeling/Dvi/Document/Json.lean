import Dvi.Document
import Dvi.Json.Basic

/-!
# Documents as JSON

Every part of a document as an object, with its fields in the order in which they are declared. Bytes are
arrays of numbers; what is missing is `null`; fonts stand under their numbers and font map records under
their names.
-/

namespace Dvi

/-- The number of a signed word. -/
def Json.ofInt32 (n : Int32) : Json := .ofInt n.toInt

/-- The number of a word without sign. -/
def Json.ofUInt32 (n : UInt32) : Json := .ofNat n.toNat

open Json

/-- How a character or a rule stands on the page. -/
def Placement.toJson : Placement → Json
  | .set => ofText "set"
  | .put => ofText "put"

/-- An event on a page, with its kind first. -/
def Event.toJson : Event → Json
  | .char placement h v font code width =>
    record [
      ("kind", ofText "char"), ("h", ofInt32 h), ("v", ofInt32 v), ("font", ofUInt32 font),
      ("code", ofUInt32 code), ("width", ofOption ofInt32 width), ("placement", placement.toJson)]
  | .rule placement h v height width =>
    record [
      ("kind", ofText "rule"), ("h", ofInt32 h), ("v", ofInt32 v), ("height", ofInt32 height),
      ("width", ofInt32 width), ("visible", .bool (ruleIsVisible height width)),
      ("placement", placement.toJson)]
  | .fontSelect font => record [("kind", ofText "font_select"), ("font", ofUInt32 font)]
  | .special h v payload =>
    record [("kind", ofText "special"), ("h", ofInt32 h), ("v", ofInt32 v), ("payload", ofBytes payload)]

/-- A page with all its events. -/
def Page.toJson (p : Page) : Json :=
  record [
    ("offset", ofNat p.offset),
    ("counts", .array (p.counts.toList.map ofInt32)),
    ("back_pointer", ofInt32 p.backPointer),
    ("events", .array (p.events.toList.map Event.toJson))]

/-- A font as the stream defines it. -/
def FontDefinition.toJson (f : FontDefinition) : Json :=
  record [
    ("id", ofUInt32 f.id), ("checksum", ofUInt32 f.checksum), ("scale", ofInt32 f.scale),
    ("design_size", ofInt32 f.designSize), ("area", ofText f.area), ("name", ofText f.name),
    ("offset", ofNat f.offset)]

/-- What a font map knows of a font. The options are sorted by their flags. -/
def MapRecord.toJson (r : MapRecord) : Json :=
  record [
    ("tex_name", ofText r.texName),
    ("encoding", ofOption ofText r.encoding),
    ("font_name", ofOption ofText r.fontName),
    ("file", ofOption ofText r.file),
    ("options", record (r.sortedOptions.map fun (flag, value) => (flag, ofText value)))]

/-- The front of the stream. The comment need not be a text, so its bytes are numbers. -/
def Preamble.toJson (p : Preamble) : Json :=
  record [
    ("id", ofNat p.id.toNat), ("numerator", ofUInt32 p.numerator), ("denominator", ofUInt32 p.denominator),
    ("magnification", ofUInt32 p.magnification), ("comment", ofBytes p.comment)]

/-- The postamble, with what the last command says of it if that was read. -/
def Postamble.toJson (p : Postamble) : Json :=
  record [
    ("offset", ofNat p.offset), ("last_page", ofInt32 p.lastPage), ("numerator", ofUInt32 p.numerator),
    ("denominator", ofUInt32 p.denominator), ("magnification", ofUInt32 p.magnification),
    ("max_height", ofInt32 p.maxHeight), ("max_width", ofInt32 p.maxWidth),
    ("max_stack_depth", ofNat p.maxStackDepth.toNat), ("total_pages", ofNat p.totalPages.toNat),
    ("post_pointer", ofOption ofInt32 p.postPointer), ("id", ofOption (fun id => ofNat id.toNat) p.id)]

/-- The document as far as it was read. Font numbers become names of members. -/
def Document.toJson (d : Document) : Json :=
  record [
    ("preamble", ofOption Preamble.toJson d.preamble),
    ("postamble", ofOption Postamble.toJson d.postamble),
    ("pages", .array (d.pages.map Page.toJson)),
    ("fonts", record (d.fonts.entries.map fun (id, f) => (toString id, f.toJson))),
    ("font_map", record (d.fontMap.entries.map fun (name, r) => (name, r.toJson)))]

end Dvi
