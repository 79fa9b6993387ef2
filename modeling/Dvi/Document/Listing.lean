import Dvi.Document
import Dvi.Number.Rounding
import Dvi.Page.Device
import Dvi.Text.Blank

/-!
# Listings

A document for a human reader, line by line: what the stream says of itself, its fonts, its pages, and what
it declares at its end. A page is shown by its characters, or by everything that is drawn on it.

A listing is written in pieces: the constant parts of a line, and between them what varies. The sign of a
negative number is a piece of its own.

* `Page.listing`: the pieces of the lines of a page;
* `Document.listing`: the pieces of the lines of a document.
-/

namespace Dvi

/-- How a page is shown. -/
inductive PageView where
  /-- the characters on one line -/
  | text
  /-- a line for everything that is drawn -/
  | events
  deriving DecidableEq, Repr

/-- The first word of the line of a character or a rule. -/
def Placement.caption : Placement → String
  | .set => "Set"
  | .put => "Put"

/-- A number in decimal digits. -/
def numberPieces (n : Int) : List String := (if n < 0 then ["-"] else []) ++ [toString n.natAbs]

/-- A position: two numbers and the comma between them. -/
def positionPieces (h v : Int32) : List String := numberPieces h.toInt ++ "," :: numberPieces v.toInt

/-- The line of an event. A width that is not known is a question mark. -/
def Event.line : Event → List String
  | .char placement h v font code width =>
    let shown := match width with
      | some w => toString w
      | none => "?"
    ["    ", placement.caption, " char ", toString code, " font ", toString font, " at ("] ++
      positionPieces h v ++ [") width ", shown, "\n"]
  | .rule placement h v height width =>
    let hidden := if ruleIsVisible height width then "" else " (invisible)"
    ["    ", placement.caption, " rule "] ++ numberPieces height.toInt ++ "x" :: numberPieces width.toInt ++
      " at (" :: positionPieces h v ++ [")", hidden, "\n"]
  | .fontSelect font => ["    select font ", toString font, "\n"]
  | .special h v payload => "    special at (" :: positionPieces h v ++ ["): ", Utf8.lossy payload, "\n"]

/-- The lines of a page: what is on it in numbers, and then in detail. -/
def Page.listing (p : Page) (view : PageView) : List String :=
  let counts := EventCounter.ofPage p
  "  [" :: numberPieces p.number.toInt ++
    ["] at ", toString p.offset, ": ", toString counts.chars, " chars, ", toString counts.rules, " rules, ",
      toString counts.specials, " specials\n"] ++
    match view with
    | .text => ["    ", p.text, "\n"]
    | .events => p.events.toList.flatMap Event.line

/-- A size in points with two places, from units of which `perPoint` make one point. -/
def pointsPieces (size : Int32) (perPoint : Nat) : List String :=
  fixedPieces 2 (size < 0) size.toInt.natAbs perPoint ++ ["pt"]

namespace Document

/-- The line of the preamble. Blanks around the comment are left out. -/
def preambleLine (p : Preamble) : List String :=
  ["  format ", toString p.id, " num=", toString p.numerator, " den=", toString p.denominator, " mag=",
    toString p.magnification, " '", Text.trim p.commentText, "'\n"]

/-- The line of a font: its size, and what a font map says of it. -/
def fontLine (d : Document) (id : UInt32) (f : FontDefinition) : List String :=
  let mapped := match d.fontMap.find? f.name with
    | some r => " -> " ++ r.fileOrName
    | none => ""
  ["  font ", toString id, ": ", f.name, " at "] ++ pointsPieces f.scale 65536 ++ [mapped, "\n"]

/-- The line of the postamble. -/
def postambleLine (p : Postamble) : List String :=
  ["  ", toString p.totalPages, " pages declared, max stack depth ", toString p.maxStackDepth, "\n"]

/-- The lines of a document: the preamble, the fonts in the order of their definitions, the pages and the postamble. -/
def listing (d : Document) (view : PageView) : List String :=
  d.preamble.toList.flatMap preambleLine ++
    d.fonts.entries.flatMap (fun (id, f) => d.fontLine id f) ++
    d.pages.flatMap (·.listing view) ++
    d.postamble.toList.flatMap postambleLine

end Document

end Dvi
