import Dvi.Document.Json
import Dvi.Document.Listing
import Dvi.Interpreter
import Dvi.Json.Printer
import Dvi.Tool.Buffer
import Dvi.Tool.Outcome

/-!
# The page lister

Reads streams and shows their pages, fonts and events, as lines or as JSON.

* `PageLister.usage`: the options;
* `PageLister.startWorkers`: several files are read by workers. **Without them nothing is shown**;
* `PageLister.run`: a run. A file that cannot be interpreted is reported and the others are shown all the
  same; when single pages or partial documents are asked for, **a file that cannot be read ends the run**, and
  each file is read only after what comes before it is shown. The output file may itself be among them.
-/

namespace Dvi.Tool.PageLister

/-- What the user asks for. -/
structure Settings where
  files : List Path := []
  json : Bool := false
  view : PageView := .text
  /-- the one page to be read, counted from one -/
  page : Option Nat := none
  maps : List String := []
  /-- what was read before an error is shown -/
  showPartial : Bool := false
  /-- how many workers read several files -/
  workers : Option Nat := none
  /-- the file that is written; without one, the output is shown -/
  outfile : Option String := none
  search : SearchSettings := {}

/-- Numbers on the command line have 64 bits. -/
def numberBound : Nat := UInt64.size

/-- The name that stands for no output file. -/
def standardOutput : String := "-"

/-- The options of the tool besides those of every tool. -/
def forms : List (OptionForm Settings) :=
  [{ name := "debug", letter := some 'd', action := .flag id, purpose := "Use debug logging level" },
   { name := "json", letter := some 'j'
     action := .flag fun s => { s with json := true }
     purpose := "Print the document as JSON" },
   { name := "events", letter := some 'e'
     action := .flag fun s => { s with view := .events }
     purpose := "List every event instead of a per-page summary" },
   { name := "page", letter := some 'p', value := "N"
     action := .single fun v s => (wholeNumber? numberBound v).map fun n => { s with page := some n }
     purpose := "Only interpret this page (1-indexed, in file order)" },
   { name := "map", letter := some 'm', value := "NAME"
     action := .repeated fun v s => some { s with maps := s.maps ++ [v] }
     purpose := "Font map to load; a leading + or - appends or removes entries. May be repeated" },
   { name := "partial"
     action := .flag fun s => { s with showPartial := true }
     purpose := "Keep going after an error and print the pages read so far" },
   { name := "threads", letter := some 't', value := "THREADS"
     action := .single fun v s => (wholeNumber? numberBound v).map fun n => { s with workers := some n }
     purpose := "Number of threads used when several files are given" },
   { name := "outfile", letter := some 'o', value := "OUTFILE"
     action := .single fun v s => some { s with outfile := if v = standardOutput then none else some v }
     purpose := "Path to file where output is written, or \"-\" for stdout [default: -]" }] ++
  SearchSettings.forms (fun change s => { s with search := change s.search }) ++ closingForms

/-- The command line. At least one file has to be given. -/
def usage : Usage Settings where
  tool := "dvitype"
  version := "0.1.0"
  purpose := "Interpret DVI files and print their pages, fonts and events"
  operands := "<FILES>..."
  options := forms
  takeOperand text s := (pathOfText text).map fun p => { s with files := s.files ++ [p] }
  isComplete s := !s.files.isEmpty

/-- A run under way: what was shown and reported so far, and whether all went well. -/
structure Progress where
  library : FontLibrary
  output : Buffered := {}
  diagnostics : String := ""
  success : Bool := true

namespace Progress

/-- Writes to the output. -/
def write (p : Progress) (pieces : List String) : Progress :=
  { p with output := p.output.writeAll pieces }

/-- Writes a line of diagnostics. The run is no success any more. -/
def report (p : Progress) (line : String) : Progress :=
  { p with diagnostics := p.diagnostics ++ line ++ "\n", success := false }

end Progress

/-- The line for a file that cannot be interpreted, with the place and the opcode if both are known. -/
def errorLine (file : Path) (e : Error) : String :=
  let place := match e.offset, e.opcode with
    | some offset, some opcode => s!" (offset {offset}, opcode {opcode})"
    | _, _ => ""
  file.text ++ ": " ++ e.message ++ place

/-- Prints a document. -/
def showDocument (s : Settings) (file : Path) (d : Document) (p : Progress) : Progress :=
  p.write (if s.json then d.toJson.pieces ++ ["\n"] else file.text :: "\n" :: d.listing s.view)

/-- Prints one page. -/
def showPage (s : Settings) (file : Path) (page : Page) (p : Progress) : Progress :=
  p.write (if s.json then page.toJson.pieces ++ ["\n"] else file.text :: "\n" :: page.listing s.view)

/-- Shows the document of a file, or reports why it cannot be interpreted. -/
def listFile (s : Settings) (p : Progress) (file : Path) : Progress :=
  match p.library.files.map file with
  | .error e => p.report (errorLine file (.file e))
  | .ok data =>
    let r := interpretPartial data p.library
    let p := { p with library := r.source }
    match r.complete with
    | .ok d => showDocument s file d p
    | .error e => p.report (errorLine file e)

/-- Shows what can be read of a stream, after reporting what stopped it. -/
def listPart (s : Settings) (file : Path) (data : ByteArray) (p : Progress) : Progress :=
  let r := interpretPartial data p.library
  let p := { p with library := r.source }
  let p := match r.failure with
    | some e => p.report (errorLine file e)
    | none => p
  showDocument s file r.document p

/-- Shows page `n` of a stream, counted from zero, if there is such a page. -/
def listPage (s : Settings) (n : Nat) (file : Path) (data : ByteArray) (p : Progress) : Progress :=
  let r := pageAt data p.library n
  let p := { p with library := r.source }
  match r.result with
  | .ok (some page) => showPage s file page p
  | .ok none => { p with success := false }
  | .error e => p.report (errorLine file e)

/-- The files after the output file was written. -/
def writeOutput (t : FileTree) (file : String) (output : String) : Except Failure FileTree :=
  match t.create ⟨file⟩ output.toUTF8 with
  | .ok t => .ok t
  | .error e =>
    .error { message := "failed to create output file " ++ file, causes := [e.message] }

/-- A run in which the output file, if there is one, holds what has left the buffer. -/
def settle (outfile : Option String) (p : Progress) : Progress :=
  match outfile with
  | none => p
  | some file =>
    match writeOutput p.library.files file p.output.saved with
    | .ok files => { p with library := { p.library with files } }
    | .error _ => p

/-- Treats files one after the other, up to the first that cannot be read. -/
def eachData (outfile : Option String) (treat : Path → ByteArray → Progress → Progress) :
    List Path → Progress → Progress × Option Failure
  | [], p => (p, none)
  | file :: rest, p =>
    match p.library.files.map file with
    | .error e => (p, some ((Failure.ofError (.file e)).during ("reading " ++ file.text)))
    | .ok data => eachData outfile treat rest (settle outfile (treat file data p))

/-- How many workers are wanted: as many as the user says, or as there are, and one at least. -/
def Settings.workerCount (s : Settings) (w : Workers) : Nat := max 1 (s.workers.getD (w.available.getD 1))

/-- Starts the workers that read the files. A single file is read without them. -/
def startWorkers (s : Settings) (w : Workers) : Except Failure Unit :=
  if s.files.length = 1 then .ok ()
  else (w.start (s.workerCount w)).mapError fun cause => .ofError (.noWorkers cause)

/-- Shows what the user asks for, up to what ends the run. Whole documents of several files are shown once workers have
read them. -/
def listAll (s : Settings) (w : Workers) (p : Progress) : Progress × Option Failure :=
  match s.page with
  | some 0 => (p, some { message := "page numbers start at 1" })
  | some (n + 1) => eachData s.outfile (listPage s n) s.files p
  | none =>
    if s.showPartial then eachData s.outfile (listPart s) s.files p
    else
      match startWorkers s w with
      | .ok () => (s.files.foldl (listFile s) p, none)
      | .error f => (p, some f)

/-- The library for a run, with the output file made empty. -/
def prepare (s : Settings) (around : Surroundings) : Except Failure FontLibrary := do
  let resolver ← s.search.resolver around
  let library ← SearchSettings.library resolver around.files s.maps
  match s.outfile with
  | none => return library
  | some file => return { library with files := ← writeOutput library.files file "" }

/-- The outcome for settings. What was printed before a failure stays printed. -/
def runWith (around : Surroundings) (s : Settings) : Outcome :=
  match prepare s around with
  | .error f => { exit := exitOf false, output := "", diagnostics := f.report, files := around.files }
  | .ok library =>
    let (p, failure) := listAll s around.workers { library }
    let exit := exitOf (p.success && failure.isNone)
    let diagnostics := p.diagnostics ++ (failure.map Failure.report).getD ""
    let files := p.library.files
    match s.outfile with
    | none => { exit, output := p.output.text, diagnostics, files }
    | some file =>
      match writeOutput files file p.output.text with
      | .ok files => { exit, output := "", diagnostics, files }
      | .error f => { exit := exitOf false, output := "", diagnostics := diagnostics ++ f.report, files }

/-- A run. -/
def run (arguments : List String) (around : Surroundings) : Outcome :=
  Outcome.ofRequest usage around.files (runWith around) (usage.read {} arguments)

end Dvi.Tool.PageLister
