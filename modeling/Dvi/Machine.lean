import Dvi.Font.Source
import Dvi.Page.Device
import Dvi.Page.Graphics
import Dvi.Stream.Command
import Dvi.Warning

/-!
# Executing commands

A `Machine` reads a stream from the front, one command at a time. It first reads a whole command and then
executes it, so **a command that fails changes nothing but the cursor, the phase and the last opcode read**.

* `Phase.refusal`: the opcodes that may not stand where they do;
* `Machine.execute`: a command with its operands;
* `Machine.step`: reads and executes the next command;
* **`Machine.remaining_lt_of_step`**: a step that is not the last has read something. Loops over steps end
  because of it.
-/

namespace Dvi

/-- Where in the stream the machine is. -/
inductive Phase where
  | awaitPreamble
  | betweenPages
  | inPage
  /-- after the postamble, among the font definitions that follow it -/
  | inPostamble
  | afterPostamble
  | failed
  deriving DecidableEq, Repr, Inhabited

namespace Phase

/-- Nothing more is read. -/
def isFinal : Phase → Bool
  | .afterPostamble | .failed => true
  | _ => false

/-- The error of an opcode that may not stand in a phase. -/
def refusal (site : Site) : Phase → Opcode → Option Error
  | .awaitPreamble, .preamble => none
  | .awaitPreamble, _ => some (.malformedHeader site)
  | .betweenPages, o =>
    match o with
    | .fontDef _ | .nop | .beginPage | .postamble => none
    | _ => some (.unexpectedOpcode site)
  | .inPage, o =>
    match o with
    | .beginPage | .preamble | .postamble | .postPostamble | .undefined _ => some (.malformedOpcode site)
    | _ => none
  | .inPostamble, o =>
    match o with
    | .fontDef _ | .nop | .postPostamble => none
    | _ => some (.unexpectedOpcode site)
  | .afterPostamble, _ => none
  | .failed, _ => none

end Phase

/-- A stream that is being read, with the source of its fonts. -/
structure Machine (σ : Type) where
  cursor : Cursor
  source : σ
  phase : Phase := .awaitPreamble
  graphics : Graphics := .blank
  preamble : Option Preamble := none
  postamble : Option Postamble := none
  fonts : Table UInt32 FontDefinition := {}
  metrics : Table UInt32 Metrics := {}
  fontMap : Table String MapRecord := {}
  lastOpcode : Option Site := none
  /-- the offset of the page begun last, -1 before the first -/
  lastPage : Int32 := -1
  pageCount : Nat := 0
  /-- the greatest depth of the stack so far -/
  deepest : Nat := 0
  /-- pages are read out of order, so nothing is checked against the postamble -/
  randomAccess : Bool := false

/-- What a command brings about: the machine after it, and what the outside is told. -/
structure Effect (σ : Type) where
  machine : Machine σ
  signals : List Signal := []
  warnings : List Warning := []

namespace Machine

variable {σ : Type}

/-- A machine at the front of a stream. -/
def start (data : ByteArray) (source : σ) : Machine σ := { cursor := .start data, source }

/-- The advance of a character in a font, if its metrics are known. -/
def charWidth (m : Machine σ) (font code : UInt32) : Option Int32 := do
  let definition ← m.fonts.find? font
  let metrics ← m.metrics.find? font
  metrics.scaledWidth? code definition.scale

/-! ## Fonts -/

/-- Defines a font. The first definition of a number holds; later ones are only compared with it. -/
def defineFont [FontSource σ] (m : Machine σ) (f : FontDefinition) : Effect σ :=
  match m.fonts.find? f.id with
  | some first =>
    { machine := m
      warnings :=
        if first.sameFont f then []
        else [.fontRedefined f.id first.name first.offset f.name f.offset] }
  | none =>
    let (resolved, warnings, source) := FontSource.resolve m.source f
    { machine := { m with
        source
        fonts := m.fonts.insert f.id f
        metrics := match resolved.metrics with
          | some metrics => m.metrics.insert f.id metrics
          | none => m.metrics
        fontMap := match resolved.record with
          | some record => m.fontMap.insert f.name record
          | none => m.fontMap }
      warnings }

/-! ## Checks -/

/-- The machine's count of an offset, which has 32 bits. -/
def pointerTo (offset : Nat) : Int32 := Int32.ofNat offset

/-- What in a postamble does not fit the pages read. -/
def postambleWarnings (m : Machine σ) (p : Postamble) : List Warning :=
  if m.randomAccess then []
  else
    (if p.lastPage = m.lastPage then [] else [.lastPage m.lastPage p.lastPage]) ++
    (if p.totalPages.toNat = m.pageCount then [] else [.pageCount p.totalPages m.pageCount]) ++
    (if m.deepest ≤ p.maxStackDepth.toNat then [] else [.stackDepth p.maxStackDepth m.deepest]) ++
    match m.preamble with
    | none => []
    | some pre =>
      if pre.numerator = p.numerator && pre.denominator = p.denominator &&
        pre.magnification = p.magnification then [] else [.units]

/-- The format number that the preamble gives, or the usual one. -/
def expectedId (m : Machine σ) : UInt8 :=
  match m.preamble with
  | some p => p.id
  | none => Opcode.formatId

/-- A format number may end a stream. -/
def acceptsId (m : Machine σ) (id : UInt8) : Bool :=
  id == m.expectedId || (m.expectedId == Opcode.formatId && id == Opcode.variantFormatId)

/-- What is wrong with the bytes after the last command. -/
def paddingWarnings (c : Cursor) : List Warning :=
  let rest := (c.data.extract c.pos c.data.size).data.toList
  let padding := (rest.takeWhile (· == Opcode.padding)).length
  if padding < 4 || padding ≠ rest.length then [.irregularPadding padding rest.length] else []

/-! ## Commands -/

/-- Typesets a character, which moves the position past it unless it is put in place. -/
def typeset (m : Machine σ) (site : Site) (placement : Placement) (code : UInt32) :
    Except Error (Effect σ) :=
  match m.graphics.font with
  | none => .error (.noFontSelected site)
  | some font =>
    let width := m.charWidth font code
    let r := m.graphics.registers
    let distance := match placement with
      | .set => width.getD 0
      | .put => 0
    .ok {
      machine := { m with graphics := m.graphics.moveRight distance }
      signals := [.event (.char placement r.h r.v font code width)] }

/-- Draws a rule, which moves the position past it unless it is put in place. -/
def drawRule (m : Machine σ) (placement : Placement) (height width : Int32) : Effect σ :=
  let r := m.graphics.registers
  let distance := match placement with
    | .set => width
    | .put => 0
  { machine := { m with graphics := m.graphics.moveRight distance }
    signals := [.event (.rule placement r.h r.v height width)] }

/-- Begins a page with registers, font and stack as new. -/
def beginPage (m : Machine σ) (site : Site) (counts : Vector Int32 10) (backPointer : Int32) :
    Effect σ :=
  { machine := { m with
      phase := .inPage
      graphics := .blank
      lastPage := pointerTo site.offset
      pageCount := m.pageCount + 1 }
    signals := [.beginPage { offset := site.offset, counts, backPointer }]
    warnings :=
      if m.randomAccess || backPointer = m.lastPage then []
      else [.backPointer (m.pageCount + 1) m.lastPage backPointer] }

/-- Ends the stream, if the format number is accepted. The postamble gets to know what points back to it. -/
def finish (m : Machine σ) (site : Site) (pointer : Int32) (id : UInt8) : Except Error (Effect σ) :=
  if m.acceptsId id then
    let pointerWarnings := match m.postamble with
      | some p => if pointer = pointerTo p.offset then [] else [.postPointer p.offset pointer]
      | none => []
    .ok {
      machine := { m with
        phase := .afterPostamble
        postamble := m.postamble.map fun p => { p with postPointer := some pointer, id := some id } }
      warnings := pointerWarnings ++ paddingWarnings m.cursor }
  else .error (.versionMismatch site m.expectedId id)

/-- Executes a command. -/
def execute [FontSource σ] (m : Machine σ) (site : Site) : Command → Except Error (Effect σ)
  | .typeset placement code => m.typeset site placement code
  | .rule placement height width => .ok (m.drawRule placement height width)
  | .nop => .ok { machine := m }
  | .beginPage counts backPointer => .ok (m.beginPage site counts backPointer)
  | .endPage =>
    if m.graphics.depth = 0 then
      .ok { machine := { m with phase := .betweenPages }, signals := [.endPage] }
    else .error (.unbalancedStack site m.graphics.depth)
  | .push =>
    let graphics := m.graphics.push
    .ok { machine := { m with graphics, deepest := max m.deepest graphics.depth } }
  | .pop =>
    match m.graphics.pop with
    | some graphics => .ok { machine := { m with graphics } }
    | none => .error (.stackUnderflow site)
  | .right d => .ok { machine := { m with graphics := m.graphics.moveRight d } }
  | .down d => .ok { machine := { m with graphics := m.graphics.moveDown d } }
  | .move reg d => .ok { machine := { m with graphics := m.graphics.move reg d } }
  | .selectFont id =>
    if m.fonts.contains id then
      .ok {
        machine := { m with graphics := { m.graphics with font := some id } }
        signals := [.event (.fontSelect id)] }
    else .error (.undefinedFont site id)
  | .special payload =>
    let r := m.graphics.registers
    .ok { machine := m, signals := [.event (.special r.h r.v payload)] }
  | .defineFont f => .ok (m.defineFont f)
  | .preamble p => .ok { machine := { m with preamble := some p, phase := .betweenPages } }
  | .postamble p =>
    .ok {
      machine := { m with postamble := some p, phase := .inPostamble }
      warnings := m.postambleWarnings p }
  | .postPostamble pointer id => m.finish site pointer id
  | .undefined => .error (.malformedOpcode site)

/-! ## Steps -/

/-- The machine after a failure at a cursor. -/
def fail (m : Machine σ) (c : Cursor) : Machine σ := { m with cursor := c, phase := .failed }

/-- Reads and executes one command. The result is whether there may be more. -/
def step [FontSource σ] (m : Machine σ) : Except Error Bool × Effect σ :=
  if m.phase.isFinal then (.ok false, { machine := m })
  else
    match Read.u8 m.cursor with
    | .error s c => (.error (.truncated s none), { machine := m.fail c })
    | .ok byte c =>
      let site : Site := ⟨m.cursor.pos, byte⟩
      let opcode := Opcode.ofByte byte
      let m := { m with lastOpcode := some site }
      match m.phase.refusal site opcode with
      | some e => (.error e, { machine := m.fail c })
      | none =>
        match opcode.operands site.offset c with
        | .error s c => (.error (.truncated s (some byte)), { machine := m.fail c })
        | .ok command c =>
          match { m with cursor := c }.execute site command with
          | .error e => (.error e, { machine := m.fail c })
          | .ok effect => (.ok (effect.machine.phase != .afterPostamble), effect)

theorem cursor_of_execute [FontSource σ] {m : Machine σ} {site : Site} {c : Command} {e : Effect σ}
    (h : m.execute site c = .ok e) : e.machine.cursor = m.cursor := by
  cases c with
  | typeset p code =>
    simp only [execute, typeset] at h
    split at h
    · cases h
    · cases h; rfl
  | endPage =>
    simp only [execute] at h
    split at h
    · cases h; rfl
    · cases h
  | pop =>
    simp only [execute] at h
    split at h
    · cases h; rfl
    · cases h
  | selectFont id =>
    simp only [execute] at h
    split at h
    · cases h; rfl
    · cases h
  | defineFont f =>
    simp only [execute, Except.ok.injEq] at h
    subst h
    unfold defineFont
    split <;> rfl
  | postPostamble p i =>
    simp only [execute, finish] at h
    split at h
    · cases h; rfl
    · cases h
  | undefined => cases h
  | _ => cases h; rfl

/-- A step after which there may be more has read something. -/
theorem remaining_lt_of_step [FontSource σ] {m : Machine σ} {e : Effect σ}
    (h : m.step = (.ok true, e)) : e.machine.cursor.remaining < m.cursor.remaining := by
  unfold step at h
  split at h
  · cases h
  · split at h
    · cases h
    · rename_i byte c hb
      dsimp only at h
      split at h
      · cases h
      · split at h
        · cases h
        · rename_i command c' ho
          split at h
          · cases h
          · rename_i effect hx
            have h₁ := Read.remaining_of_u8 hb
            have h₂ := ((Opcode.ofByte byte).forward_operands m.cursor.pos).remaining_le c
            rw [Read.after, ho] at h₂
            simp only [Prod.mk.injEq] at h
            rw [← h.2, cursor_of_execute hx]
            simp only at h₂ ⊢
            omega

end Machine

end Dvi
