import Dvi.Error
import Dvi.File.Path
import Dvi.Font.MapLine

/-!
# Warnings

What is wrong with a stream, a font or a file without ending the work on it. A warning has a wording and
named details.
-/

namespace Dvi

/-- Something that is not as it should be. -/
inductive Warning where
  /-- the back pointer of a page is not the offset of the page before it -/
  | backPointer (page : Nat) (expected found : Int32)
  /-- a font number was defined before with other parameters -/
  | fontRedefined (font : UInt32) (first : String) (firstOffset : Nat) (redefined : String) (offset : Nat)
  | lastPage (expected found : Int32)
  | pageCount (declared : UInt16) (found : Nat)
  | stackDepth (declared : UInt16) (found : Nat)
  | units
  /-- the pointer at the end of the stream does not lead to the postamble -/
  | postPointer (expected : Nat) (found : Int32)
  | irregularPadding (padding trailing : Nat)
  | shortPadding (padding : Nat)
  /-- the chain of back pointers does not have as many pages as the postamble says -/
  | chainLength (declared : UInt16) (found : Nat)
  | mapLine (map : String) (line : Nat) (defect : RecordDefect)
  | unreadableListing (path : Path) (error : Error)
  | unreadableMetrics (font : String) (path : Path) (error : Error)
  /-- the check sums of a font in the stream and in its metrics differ -/
  | checksum (font : String) (stream metrics : UInt32)
  deriving DecidableEq, Repr

/-- A detail of a warning. -/
inductive Warning.Detail where
  | number (n : Int)
  | text (s : String)
  deriving DecidableEq, Repr

namespace Warning

/-- The text of a warning. -/
def message : Warning → String
  | .backPointer .. => "bop back-pointer mismatch"
  | .fontRedefined .. => "font redefined with different parameters"
  | .lastPage .. => "postamble last-page pointer mismatch"
  | .pageCount .. => "postamble page count mismatch"
  | .stackDepth .. => "stack deeper than postamble declares"
  | .units => "postamble units differ from preamble"
  | .postPointer .. => "post_post pointer mismatch"
  | .irregularPadding .. => "irregular trailer padding"
  | .shortPadding .. => "fewer than four padding bytes after post_post"
  | .chainLength .. => "page chain length differs from postamble"
  | .mapLine _ _ defect => "invalid font map record: " ++ defect.message
  | .unreadableListing .. => "skipping unreadable filename database"
  | .unreadableMetrics .. => "cannot load font metrics"
  | .checksum .. => "font checksum mismatch"

open Detail in

/-- What a warning is about, by name. -/
def details : Warning → List (String × Detail)
  | .backPointer page expected found =>
    [("page", number page), ("expected", number expected.toInt), ("found", number found.toInt)]
  | .fontRedefined font first firstOffset redefined offset =>
    [("font", number font.toNat), ("first", text first), ("first_offset", number firstOffset),
      ("redefined", text redefined), ("offset", number offset)]
  | .lastPage expected found => [("expected", number expected.toInt), ("found", number found.toInt)]
  | .pageCount declared found | .stackDepth declared found | .chainLength declared found =>
    [("declared", number declared.toNat), ("found", number found)]
  | .units => []
  | .postPointer expected found => [("expected", number expected), ("found", number found.toInt)]
  | .irregularPadding padding trailing => [("padding", number padding), ("trailing", number trailing)]
  | .shortPadding padding => [("padding", number padding)]
  | .mapLine map line _ => [("map", text map), ("line", number line)]
  | .unreadableListing path error => [("db", text path.text), ("err", text error.message)]
  | .unreadableMetrics font path error =>
    [("font", text font), ("path", text path.text), ("err", text error.message)]
  | .checksum font stream metrics =>
    [("font", text font), ("dvi", number stream.toNat), ("tfm", number metrics.toNat)]

end Warning

end Dvi
