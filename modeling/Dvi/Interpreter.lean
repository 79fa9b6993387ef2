import Dvi.Document
import Dvi.Machine
import Dvi.PageIndex

/-!
# Interpreting streams

An `Interpreter` is a machine whose signals go to a device and whose warnings are kept until they are taken.

* `Interpreter.run` reads a stream to its end;
* `Interpreter.interpretPage` reads one page, wherever it stands. The fonts come from the end of the stream,
  which is read once, before the first such page;
* `interpret`, `interpretPartial`, `pageAt`: whole streams, what was read of a stream, and single pages.
-/

namespace Dvi

/-- A machine, the device that it draws on, and the warnings raised. -/
structure Interpreter (σ δ : Type) where
  machine : Machine σ
  device : δ
  log : List Warning := []

namespace Interpreter

variable {σ δ : Type} [FontSource σ] [Device δ]

/-- An interpreter at the front of a stream. -/
def start (data : ByteArray) (source : σ) (device : δ) : Interpreter σ δ :=
  { machine := .start data source, device }

/-- Adds warnings to the log. -/
def warn (i : Interpreter σ δ) (warnings : List Warning) : Interpreter σ δ :=
  { i with log := if warnings.isEmpty then i.log else i.log ++ warnings }

/-- The warnings raised since they were last taken. -/
def takeWarnings (i : Interpreter σ δ) : List Warning × Interpreter σ δ := (i.log, { i with log := [] })

/-- The interpreter after what a command brings about. -/
def apply (i : Interpreter σ δ) (e : Effect σ) : Interpreter σ δ :=
  { machine := e.machine
    device := e.signals.foldl Device.receive i.device
    log := if e.warnings.isEmpty then i.log else i.log ++ e.warnings }

/-- Reads and executes one command. The result is whether there may be more. -/
def step (i : Interpreter σ δ) : Except Error Bool × Interpreter σ δ :=
  let (result, effect) := i.machine.step
  (result, i.apply effect)

theorem remaining_lt_of_step {i j : Interpreter σ δ} (h : i.step = (.ok true, j)) :
    j.machine.cursor.remaining < i.machine.cursor.remaining := by
  simp only [step, Prod.mk.injEq] at h
  rw [← h.2]
  exact Machine.remaining_lt_of_step (Prod.ext h.1 rfl)

/-- Reads and executes all commands that follow. -/
def run (i : Interpreter σ δ) : Except Error Unit × Interpreter σ δ :=
  match _h : i.step with
  | (.ok true, j) => run j
  | (.ok false, j) => (.ok (), j)
  | (.error e, j) => (.error e, j)
termination_by i.machine.cursor.remaining
decreasing_by exact remaining_lt_of_step _h

/-- Reads and executes commands up to the end of a page. -/
def runPage (i : Interpreter σ δ) : Except Error Unit × Interpreter σ δ :=
  match _h : i.step with
  | (.ok true, j) => if j.machine.phase = .betweenPages then (.ok (), j) else runPage j
  | (.ok false, j) => (.ok (), j)
  | (.error e, j) => (.error e, j)
termination_by i.machine.cursor.remaining
decreasing_by exact remaining_lt_of_step _h

/-! ## Single pages -/

/-- Reads the preamble, if that has not been done. -/
def readPreamble (i : Interpreter σ δ) : Except Error Unit × Interpreter σ δ :=
  if i.machine.phase = .awaitPreamble then
    match i.step with
    | (.ok _, j) => (.ok (), j)
    | (.error e, j) => (.error e, j)
  else (.ok (), i)

/-- Defines fonts one after the other. -/
def defineFonts (i : Interpreter σ δ) (fonts : List FontDefinition) : Interpreter σ δ :=
  fonts.foldl (fun i f => i.apply (i.machine.defineFont f)) i

/-- Reads the end of the stream, if that has not been tried, and defines the fonts found there. -/
def readTrailer (i : Interpreter σ δ) : Except Error Unit × Interpreter σ δ :=
  if i.machine.randomAccess then (.ok (), i)
  else
    let i := i.warn (Trailer.warnings i.machine.cursor.data)
    match Trailer.locate i.machine.cursor with
    | .error e c => (.error e, { i with machine := { i.machine with cursor := c, randomAccess := true } })
    | .ok t c =>
      let i := { i with machine := { i.machine with cursor := c, randomAccess := true } }
      let i := i.defineFonts t.fonts
      let postamble := i.machine.postamble <|> some t.postamble
      (.ok (), { i with machine := { i.machine with postamble } })

/-- Reads the page at an offset, where a page must begin. -/
def readPageAt (i : Interpreter σ δ) (offset : Nat) : Except Error Unit × Interpreter σ δ :=
  match i.machine.cursor.seek offset with
  | none => (.error (.outOfRange offset i.machine.cursor.data.size), i)
  | some c =>
    let opcode := c.peek.getD 0
    if Opcode.ofByte opcode = .beginPage then
      runPage { i with machine := { i.machine with cursor := c, phase := .betweenPages } }
    else (.error (.unexpectedOpcode ⟨offset, opcode⟩), { i with machine := i.machine.fail c })

/-- Interprets the one page that begins at an offset. -/
def interpretPage (i : Interpreter σ δ) (offset : Nat) : Except Error Unit × Interpreter σ δ :=
  match i.readPreamble with
  | (.error e, i) => (.error e, i)
  | (.ok (), i) =>
    match i.readTrailer with
    | (.error e, i) => (.error e, i)
    | (.ok (), i) => i.readPageAt offset

/-! ## Results -/

/-- Takes the pages out of the device, which goes on without them. -/
def takePages (i : Interpreter σ δ) : List Page × Interpreter σ δ :=
  let (pages, device) := Device.takePages i.device
  (pages, { i with device })

/-- Everything read so far, also of a page under way. -/
def document (i : Interpreter σ δ) : Document where
  preamble := i.machine.preamble
  postamble := i.machine.postamble
  pages := i.takePages.1
  fonts := i.machine.fonts
  fontMap := i.machine.fontMap

end Interpreter

/-! ## Whole streams -/

/-- What came of interpreting a stream: the interpreter afterwards, and the error that ended it. -/
structure Interpretation (σ : Type) where
  result : Except Error Unit
  interpreter : Interpreter σ PageCollector

namespace Interpretation

variable {σ : Type}

/-- Everything read, also before an error. -/
def document [FontSource σ] (r : Interpretation σ) : Document := r.interpreter.document

/-- The error that ended the interpretation. -/
def failure (r : Interpretation σ) : Option Error :=
  match r.result with
  | .ok () => none
  | .error e => some e

/-- The document, if the stream was read to its end. -/
def complete [FontSource σ] (r : Interpretation σ) : Except Error Document :=
  match r.result with
  | .ok () => .ok r.document
  | .error e => .error e

/-- The warnings raised, in order. -/
def warnings (r : Interpretation σ) : List Warning := r.interpreter.log

/-- The source of fonts, with what it remembers after the interpretation. -/
def source (r : Interpretation σ) : σ := r.interpreter.machine.source

end Interpretation

/-- Reads a stream as far as it goes. -/
def interpretPartial {σ : Type} [FontSource σ] (data : ByteArray) (source : σ) : Interpretation σ :=
  let (result, interpreter) := (Interpreter.start data source ({} : PageCollector)).run
  { result, interpreter }

/-- The document of a stream that can be read to its end. -/
def interpret {σ : Type} [FontSource σ] (data : ByteArray) (source : σ) : Except Error Document :=
  (interpretPartial data source).complete

/-- What came of interpreting one page. -/
structure PageResult (σ : Type) where
  result : Except Error (Option Page)
  warnings : List Warning
  source : σ

/-- Page `n` of a stream, counted from zero, found from the end of the stream. -/
def pageAt {σ : Type} [FontSource σ] (data : ByteArray) (source : σ) (n : Nat) : PageResult σ :=
  match PageIndex.build data with
  | (.error e, warnings) => { result := .error e, warnings, source }
  | (.ok index, warnings) =>
    match index.offset? n with
    | none => { result := .ok none, warnings, source }
    | some offset =>
      let (r, i) := (Interpreter.start data source ({} : PageCollector)).interpretPage offset
      { result := match r with
          | .ok () => .ok i.document.pages.getLast?
          | .error e => .error e
        warnings := warnings ++ i.log
        source := i.machine.source }

end Dvi
