import Dvi.Document.Json
import Dvi.Document.Listing
import Dvi.Json.Printer
import Dvi.Number.Shortest
import Dvi.Tool.Outcome

/-!
# The font reporter

Shows what stands behind the name of a font: its font map record, its metrics and its file. It can also
locate a file of any class.

* `FontReporter.usage`: the options;
* `FontReport`: all that is shown of a font, as lines or as JSON;
* `FontReporter.run`: a run. It fails if **neither metrics nor a file** are found.
-/

namespace Dvi.Tool

/-- The metrics of a font, in brief. -/
structure MetricsSummary where
  path : Option Path
  metrics : Metrics

/-- What is known of a font. -/
structure FontReport where
  font : String
  record : Option MapRecord
  metrics : Option MetricsSummary
  file : Option Path

namespace FontReport

/-- Metrics or a file were found. -/
def isBacked (r : FontReport) : Bool := r.metrics.isSome || r.file.isSome

/-- A number in hexadecimal capitals, with at least eight digits. -/
def hexText (n : UInt32) : String :=
  let digits := (Nat.toDigits 16 n.toNat).map Char.toUpper
  String.ofList (List.replicate (8 - digits.length) '0' ++ digits)

/-- What is shown for something that was not found. -/
def notFound : String := "(not found)"

/-- The lines of the entry in the font maps. Parts that it lacks have no line. -/
def recordLines : Option MapRecord → List String
  | none => ["map entry:   (none)"]
  | some r =>
    ("map entry:   " ++ r.texName) :: (
      (r.fontName.toList.map ("  font name: " ++ ·)) ++
      (r.encoding.toList.map ("  encoding:  " ++ ·)) ++
      (r.file.toList.map ("  file:      " ++ ·)) ++
      (r.sortedOptions.map fun (flag, value) => "  option:    " ++ flag ++ " " ++ value))

/-- The lines of the metrics. Without a path there is no line for it. -/
def metricsLines : Option MetricsSummary → List String
  | none => ["metrics:     " ++ notFound]
  | some m =>
    (m.path.toList.map fun p => "metrics:     " ++ p.text) ++
      ["  checksum:  " ++ hexText m.metrics.checksum,
       "  design:    " ++ String.join (pointsPieces m.metrics.designSize (1 <<< 20)),
       "  chars:     " ++ toString m.metrics.charCount]

/-- The lines of a report. -/
def listing (r : FontReport) : List String :=
  ("font:        " ++ r.font) ::
    (recordLines r.record ++ metricsLines r.metrics ++
      ["font file:   " ++ ((r.file.map Path.text).getD notFound)])

/-- The metrics of a report. -/
def metricsJson (m : MetricsSummary) : Json :=
  .record [
    ("path", .ofOption (fun p => .ofText p.text) m.path),
    ("checksum", .ofUInt32 m.metrics.checksum),
    ("design_size_pt", .number (Shortest.text m.metrics.designPoints)),
    ("char_count", .ofNat m.metrics.charCount)]

/-- A report as a value, with all members. -/
def toJson (r : FontReport) : Json :=
  .record [
    ("font", .ofText r.font),
    ("map_record", .ofOption MapRecord.toJson r.record),
    ("metrics", .ofOption metricsJson r.metrics),
    ("font_file", .ofOption (fun p => .ofText p.text) r.file)]

/-- The report on a font, whose file is looked for in a class. -/
def ofLibrary (l : FontLibrary) (font : String) (cls : ResourceClass) : FontReport :=
  let record := l.map.bind (·.get? font)
  let (metrics, _, l) := l.metrics font
  let (path, resolver) := l.resolver.find l.files font .tfm
  let file := match record with
    | some r => r.fileOrName
    | none => font
  { font
    record
    metrics := metrics.map fun metrics => { path, metrics }
    file := (resolver.find l.files file cls).1 }

end FontReport

namespace FontReporter

/-- What the user asks for. -/
structure Settings where
  font : Option String := none
  maps : List String := []
  /-- the class in which the file of the font is looked for -/
  cls : ResourceClass := .type1
  /-- the class of a file to be located instead -/
  find : Option ResourceClass := none
  json : Bool := false
  search : SearchSettings := {}

/-- The options of the tool besides those of every tool. -/
def forms : List (OptionForm Settings) :=
  [{ name := "map", letter := some 'm', value := "NAME"
     action := .repeated fun v s => some { s with maps := s.maps ++ [v] }
     purpose := "Font map to consult; may be repeated" },
   { name := "class", value := "CLASS"
     action := .single fun v s => (ResourceClass.ofText v).map fun c => { s with cls := c }
     purpose := "Format class used to locate the backing font file [default: type1]" },
   { name := "find", value := "CLASS"
     action := .single fun v s => (ResourceClass.ofText v).map fun c => { s with find := some c }
     purpose := "Locate a file of any class by name instead of describing a font" },
   { name := "debug", letter := some 'd', action := .flag id, purpose := "Use debug logging level" },
   { name := "json", letter := some 'j'
     action := .flag fun s => { s with json := true }
     purpose := "Print the report as JSON" }] ++
  SearchSettings.forms (fun change s => { s with search := change s.search }) ++ closingForms

/-- The command line. Exactly one font has to be given. -/
def usage : Usage Settings where
  tool := "fontinfo"
  version := "0.1.0"
  purpose := "Resolve a TeX font through font maps, metrics and the search path"
  operands := "<FONT>"
  options := forms
  takeOperand text s := if s.font.isSome then none else some { s with font := some text }
  isComplete s := s.font.isSome

/-- The path of a file, on a line of its own. -/
def locate (r : Resolver) (t : FileTree) (name : String) (cls : ResourceClass) : Except Failure String :=
  match (r.resolve t name cls).1 with
  | .ok p => .ok (p.text ++ "\n")
  | .error e => .error (.ofError e)

/-- What is shown, and whether something was found. -/
def answer (around : Surroundings) (s : Settings) : Except Failure (String × Bool) := do
  let font := s.font.getD ""
  let resolver ← s.search.resolver around
  match s.find with
  | some cls => return (← locate resolver around.files font cls, true)
  | none =>
    let library ← SearchSettings.library resolver around.files s.maps
    let report := FontReport.ofLibrary library font s.cls
    let lines := if s.json then [report.toJson.pretty] else report.listing
    return (String.join (lines.map (· ++ "\n")), report.isBacked)

/-- The outcome for settings. A failure prints no report. -/
def runWith (around : Surroundings) (s : Settings) : Outcome :=
  match answer around s with
  | .ok (output, found) => { exit := exitOf found, output, diagnostics := "", files := around.files }
  | .error f => { exit := exitOf false, output := "", diagnostics := f.report, files := around.files }

/-- A run. -/
def run (arguments : List String) (around : Surroundings) : Outcome :=
  Outcome.ofRequest usage around.files (runWith around) (usage.read {} arguments)

end FontReporter

end Dvi.Tool
