import Dvi.File.Error
import Dvi.Font.Metrics
import Dvi.Search.Class
import Dvi.Stream.Cursor

/-!
# Errors

All reasons for which reading a stream or several, finding a file or loading one can fail, with their wording, and for
those that arise in a stream the place and the opcode.
-/

namespace Dvi

/-- Where a command stands: the offset of its opcode, and the opcode. -/
structure Site where
  offset : Nat
  opcode : UInt8
  deriving DecidableEq, Repr

/-- Why something failed. -/
inductive Error where
  /-- the bytes end inside a field; the opcode is that of the command whose operand it is -/
  | truncated (shortfall : Shortfall) (opcode : Option UInt8)
  | outOfRange (pos length : Nat)
  /-- the command that has to stand at the front or at the end does not -/
  | malformedHeader (site : Site)
  /-- the command may not stand outside pages -/
  | unexpectedOpcode (site : Site)
  /-- the command may not stand inside a page -/
  | malformedOpcode (site : Site)
  | stackUnderflow (site : Site)
  | unbalancedStack (site : Site) (depth : Nat)
  | undefinedFont (site : Site) (font : UInt32)
  | noFontSelected (site : Site)
  | versionMismatch (site : Site) (expected found : UInt8)
  | fontNotMapped (name : String)
  | notFound (name : String) (cls : ResourceClass)
  | malformedMetrics (name : String) (defect : MetricsDefect)
  | file (cause : FileError)
  /-- no workers could be started -/
  | noWorkers (cause : String)
  /-- a text is no search configuration -/
  | configuration
  deriving DecidableEq, Repr

namespace Error

/-- The wording of the cause behind an error, if it has one. -/
def cause : Error → Option String
  | .file cause => some cause.message
  | .noWorkers cause => some cause
  | .configuration => some "not a search configuration"
  | _ => none

/-- The text of an error. -/
def message : Error → String
  | .truncated s _ =>
    s!"truncated stream at offset {s.offset}: wanted {s.wanted} bytes, {s.remaining} remaining"
  | .outOfRange pos length => s!"seek to {pos} outside stream of length {length}"
  | .malformedHeader s => s!"malformed header at offset {s.offset}: found opcode {s.opcode}"
  | .unexpectedOpcode s => s!"unexpected opcode {s.opcode} between pages at offset {s.offset}"
  | .malformedOpcode s => s!"malformed opcode {s.opcode} inside page at offset {s.offset}"
  | .stackUnderflow s => s!"pop on empty stack at offset {s.offset}"
  | .unbalancedStack s depth => s!"end of page at offset {s.offset} with {depth} unpopped stack entries"
  | .undefinedFont s font => s!"font {font} used at offset {s.offset} was never defined"
  | .noFontSelected s => s!"character typeset at offset {s.offset} with no font selected"
  | .versionMismatch s expected found =>
    s!"format id mismatch at offset {s.offset}: preamble declares {expected}, trailer has {found}"
  | .fontNotMapped name => "font not mapped: " ++ name
  | .notFound name cls => name ++ " not found for format " ++ cls.name
  | .malformedMetrics name defect => "malformed font metrics " ++ name ++ ": " ++ defect.message
  | .file cause => "io error: " ++ cause.message
  | .noWorkers cause => "io error: " ++ cause
  | .configuration => "configuration error: not a search configuration"

/-- The offset at which an error came up, if it is about a place in the stream. -/
def offset : Error → Option Nat
  | .truncated s _ => some s.offset
  | .outOfRange pos _ => some pos
  | .malformedHeader s | .unexpectedOpcode s | .malformedOpcode s | .stackUnderflow s
  | .unbalancedStack s _ | .undefinedFont s _ | .noFontSelected s | .versionMismatch s _ _ => some s.offset
  | _ => none

/-- The opcode that an error is about, if there is one. -/
def opcode : Error → Option UInt8
  | .truncated _ opcode => opcode
  | .malformedHeader s | .unexpectedOpcode s | .malformedOpcode s | .stackUnderflow s
  | .unbalancedStack s _ | .undefinedFont s _ | .noFontSelected s | .versionMismatch s _ _ => some s.opcode
  | _ => none

end Error

end Dvi
