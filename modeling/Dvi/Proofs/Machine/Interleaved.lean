import Dvi.Proofs.Machine.Attribution

/-!
# Executing while reading

A machine reads a whole command before it executes it. Here a step does one thing after the other: it reads an
operand, sets a field, tells the device, raises a warning, and what it has done when an error comes up stays done. No
order is imposed on reading and doing but that in which a command needs them.

* `Action`: what is done to an interpreter, up to an error;
* `Action.dispatch`: what is done for an opcode, phase by phase;
* `Interpreter.interleavedStep`: a step made of such actions. **`Interpreter.interleavedStep_eq`**: it is the step;
* **`Interpreter.frame_of_failure`**: a step that fails leaves everything as it was but the cursor, the phase and the
  opcode read last.
-/

namespace Dvi

open Read

/-- What is done to an interpreter, one thing after the other. After an error there is what was done before it. -/
abbrev Action (σ δ α : Type) : Type := EStateM Error (Interpreter σ δ) α

/-- An error in the operands of an opcode is about the opcode. -/
def Error.withOpcode (opcode : UInt8) : Error → Error
  | .truncated s none => .truncated s (some opcode)
  | e => e

theorem Error.withOpcode_of_site? {err : Error} {site : Site} (h : err.site? = some site) (opcode : UInt8) :
    err.withOpcode opcode = err := by
  cases err <;> cases h <;> rfl

theorem Graphics.moveRight_zero (g : Graphics) : g.moveRight 0 = g := by
  rw [moveRight, Registers.moveRight, Int32.add_zero]

theorem Interpreter.warn_eq {σ δ : Type} (i : Interpreter σ δ) (warnings : List Warning) :
    i.warn warnings = { i with log := i.log ++ warnings } := by
  unfold warn
  cases warnings <;> simp

namespace Action

variable {σ δ α β : Type}

/-! ## What can be done -/

/-- Reads bytes. -/
def read (r : Read α) : Action σ δ α := fun i =>
  match r i.machine.cursor with
  | .ok a c => .ok a { i with machine := { i.machine with cursor := c } }
  | .error s c => .error (.truncated s none) { i with machine := { i.machine with cursor := c } }

/-- Looks at the machine. -/
def machine : Action σ δ (Machine σ) := fun i => .ok i.machine i

/-- Changes the machine. -/
def update (f : Machine σ → Machine σ) : Action σ δ Unit := fun i => .ok () { i with machine := f i.machine }

/-- Changes the position, the font and the stack. -/
def updateGraphics (f : Graphics → Graphics) : Action σ δ Unit :=
  update fun m => { m with graphics := f m.graphics }

/-- Goes to a phase. -/
def enter (p : Phase) : Action σ δ Unit := update fun m => { m with phase := p }

/-- Raises warnings. -/
def warn (warnings : List Warning) : Action σ δ Unit := fun i => .ok () (i.warn warnings)

/-- Tells the device something. -/
def tell [Device δ] (s : Signal) : Action σ δ Unit := fun i => .ok () { i with device := Device.receive i.device s }

/-- Does something for an opcode. -/
def attributed (opcode : UInt8) (a : Action σ δ α) : Action σ δ α := EStateM.adaptExcept (Error.withOpcode opcode) a

theorem read_pure (a : α) : (read (pure a) : Action σ δ α) = pure a := rfl

theorem read_bind (r : Read α) (f : α → Read β) :
    (read (r >>= f) : Action σ δ β) = read r >>= fun a => read (f a) := by
  funext i
  simp only [read, Bind.bind, EStateM.bind]
  cases r i.machine.cursor <;> rfl

theorem read_map (f : α → β) (r : Read α) : (read (f <$> r) : Action σ δ β) = read r >>= fun a => pure (f a) :=
  read_bind r _

/-! ## Opcodes, one thing after the other -/

section Opcodes

variable [Device δ]

/-- The preamble is kept once its comment is read. -/
def readPreamble : Action σ δ Unit := do
  let id ← read u8
  let numerator ← read u32
  let denominator ← read u32
  let magnification ← read u32
  let commentBytes ← read u8
  let comment ← read (take commentBytes.toNat)
  update fun m => { m with preamble := some { id, numerator, denominator, magnification, comment } }

/-- The back pointer is compared before the page counts as begun. -/
def beginPage (site : Site) : Action σ δ Unit := do
  let counts ← read (i32.replicate 10)
  let backPointer ← read i32
  let m ← machine
  warn (if m.randomAccess || backPointer = m.lastPage then []
    else [.backPointer (m.pageCount + 1) m.lastPage backPointer])
  update fun m => { m with lastPage := Machine.pointerTo site.offset }
  update fun m => { m with pageCount := m.pageCount + 1 }
  updateGraphics fun _ => .blank
  tell (.beginPage { offset := site.offset, counts, backPointer })
  enter .inPage

/-- The device is told of a character before the position moves past it. -/
def typeset (site : Site) (placement : Placement) (code : UInt32) : Action σ δ Unit := do
  let m ← machine
  match m.graphics.font with
  | none => throw (.noFontSelected site)
  | some font =>
    let width := m.charWidth font code
    tell (.event (.char placement m.graphics.registers.h m.graphics.registers.v font code width))
    match placement, width with
    | .set, some distance => updateGraphics (·.moveRight distance)
    | _, _ => pure ()

/-- So it is told of a rule. -/
def rule (placement : Placement) : Action σ δ Unit := do
  let height ← read i32
  let width ← read i32
  let m ← machine
  tell (.event (.rule placement m.graphics.registers.h m.graphics.registers.v height width))
  if placement = .set then updateGraphics (·.moveRight width)

/-- The register is set before the move. -/
def moveRegister (reg : Register) (w : Option Width) : Action σ δ Unit := do
  match w with
  | none => pure ()
  | some w =>
    let distance ← read w.signed
    updateGraphics fun g => { g with registers := g.registers.set reg distance }
  updateGraphics fun g => { g with registers := g.registers.moveBy reg }

/-- A font must be defined before it is selected. -/
def selectFont (site : Site) (id : UInt32) : Action σ δ Unit := do
  if !(← machine).fonts.contains id then throw (.undefinedFont site id)
  updateGraphics fun g => { g with font := some id }
  tell (.event (.fontSelect id))

/-- The payload is told with the position. -/
def special (w : Width) : Action σ δ Unit := do
  let length ← read w.unsigned
  let payload ← read (take length.toNat)
  let m ← machine
  tell (.event (.special m.graphics.registers.h m.graphics.registers.v payload))

/-- The source of fonts is asked once, by the first definition of a number. -/
def defineFont [FontSource σ] (site : Site) (w : Width) : Action σ δ Unit := do
  let f ← read (FontDefinition.read w site.offset)
  let m ← machine
  match m.fonts.find? f.id with
  | some first =>
    warn (if first.sameFont f then [] else [.fontRedefined f.id first.name first.offset f.name f.offset])
  | none =>
    let (resolved, warnings, source) := FontSource.resolve m.source f
    update fun m => { m with source }
    warn warnings
    match resolved.metrics with
    | some metrics => update fun m => { m with metrics := m.metrics.insert f.id metrics }
    | none => pure ()
    match resolved.record with
    | some record => update fun m => { m with fontMap := m.fontMap.insert f.name record }
    | none => pure ()
    update fun m => { m with fonts := m.fonts.insert f.id f }

/-- A page with registers on the stack does not end. -/
def endPage (site : Site) : Action σ δ Unit := do
  let depth := (← machine).graphics.depth
  if depth ≠ 0 then throw (.unbalancedStack site depth)
  tell .endPage
  enter .betweenPages

/-- The depth is counted after the registers are on the stack. -/
def push : Action σ δ Unit := do
  updateGraphics Graphics.push
  update fun m => { m with deepest := max m.deepest m.graphics.depth }

/-- Without registers on the stack there is nothing to restore. -/
def pop (site : Site) : Action σ δ Unit := do
  match (← machine).graphics.pop with
  | some graphics => updateGraphics fun _ => graphics
  | none => throw (.stackUnderflow site)

/-- The postamble is kept before it is compared with the pages. -/
def readPostamble (site : Site) : Action σ δ Unit := do
  let p ← read (Postamble.read site.offset)
  update fun m => { m with postamble := some p }
  warn ((← machine).postambleWarnings p)

/-- The format number is checked first. The bytes behind it are looked at last. -/
def readPostPostamble (site : Site) : Action σ δ Unit := do
  let pointer ← read i32
  let id ← read u8
  let m ← machine
  if !m.acceptsId id then throw (.versionMismatch site m.expectedId id)
  warn (match m.postamble with
    | some p => if pointer = Machine.pointerTo p.offset then [] else [.postPointer p.offset pointer]
    | none => [])
  update fun m => { m with postamble := m.postamble.map fun p => { p with postPointer := some pointer } }
  update fun m => { m with postamble := m.postamble.map fun p => { p with id := some id } }
  warn (Machine.paddingWarnings (← machine).cursor)

variable [FontSource σ]

/-- What is done on a page. -/
def onPage (site : Site) : Opcode → Action σ δ Unit
  | .setChar c => typeset site .set (UInt32.ofNat c.val)
  | .set w => do typeset site .set (← read w.unsigned)
  | .put w => do typeset site .put (← read w.unsigned)
  | .setRule => rule .set
  | .putRule => rule .put
  | .nop => pure ()
  | .endPage => endPage site
  | .push => push
  | .pop => pop site
  | .right w => do
    let distance ← read w.signed
    updateGraphics (·.moveRight distance)
  | .down w => do
    let distance ← read w.signed
    updateGraphics (·.moveDown distance)
  | .move reg w => moveRegister reg w
  | .fontNum k => selectFont site (UInt32.ofNat k.val)
  | .font w => do selectFont site (← read w.unsigned)
  | .special w => special w
  | .fontDef w => defineFont site w
  | .beginPage | .preamble | .postamble | .postPostamble | .undefined _ => throw (.malformedOpcode site)

/-- What is done for an opcode. -/
def dispatch (site : Site) (o : Opcode) : Action σ δ Unit := do
  match (← machine).phase, o with
  | .awaitPreamble, .preamble => do readPreamble; enter .betweenPages
  | .awaitPreamble, _ => throw (.malformedHeader site)
  | .betweenPages, .fontDef w => defineFont site w
  | .betweenPages, .nop => pure ()
  | .betweenPages, .beginPage => beginPage site
  | .betweenPages, .postamble => do readPostamble site; enter .inPostamble
  | .betweenPages, _ => throw (.unexpectedOpcode site)
  | .inPage, o => onPage site o
  | .inPostamble, .fontDef w => defineFont site w
  | .inPostamble, .nop => pure ()
  | .inPostamble, .postPostamble => do readPostPostamble site; enter .afterPostamble
  | .inPostamble, _ => throw (.unexpectedOpcode site)
  | .afterPostamble, _ => pure ()
  | .failed, _ => pure ()

/-- Reads an opcode, remembers it, and does what it takes. -/
def next : Action σ δ Unit := do
  let offset := (← machine).cursor.pos
  let byte ← read u8
  update fun m => { m with lastOpcode := some ⟨offset, byte⟩ }
  attributed byte (dispatch ⟨offset, byte⟩ (Opcode.ofByte byte))

/-! ## Commands, one after the other -/

/-- A command whose operands have been read. -/
def execute (site : Site) (c : Command) : Action σ δ Unit := fun i =>
  match i.machine.execute site c with
  | .ok e => .ok () (i.apply e)
  | .error err => .error err i

theorem readPreamble_eq (site : Site) : (readPreamble >>= fun _ => enter .betweenPages : Action σ δ Unit) =
    read (Opcode.preamble.operands site.offset) >>= execute site := by
  simp only [readPreamble, Opcode.operands, Preamble.read, read_map, read_bind, read_pure, bind_assoc, pure_bind]
  rfl

theorem execute_typeset (site : Site) (placement : Placement) (code : UInt32) :
    (execute site (.typeset placement code) : Action σ δ Unit) = typeset site placement code := by
  funext i
  simp only [execute, Machine.execute, Machine.typeset, typeset, machine, Bind.bind, EStateM.bind]
  cases i.machine.graphics.font with
  | none => rfl
  | some font =>
    cases placement with
    | put => simp only [Graphics.moveRight_zero]; rfl
    | set =>
      dsimp only
      cases i.machine.charWidth font code with
      | none => simp only [Option.getD_none, Graphics.moveRight_zero]; rfl
      | some distance => rfl

theorem rule_eq (site : Site) (placement : Placement) : (rule placement : Action σ δ Unit) =
    read (Command.readRule placement) >>= execute site := by
  simp only [rule, Command.readRule, read_bind, read_pure, bind_assoc, pure_bind]
  congr 1; funext height; congr 1; funext width; funext i
  cases placement with
  | set => rfl
  | put =>
    simp only [execute, Machine.execute, Machine.drawRule, Graphics.moveRight_zero]
    rfl

theorem beginPage_eq (site : Site) : (beginPage site : Action σ δ Unit) =
    read Command.readBeginPage >>= execute site := by
  simp only [beginPage, Command.readBeginPage, read_bind, read_pure, bind_assoc, pure_bind]
  rfl

theorem moveRegister_eq (site : Site) (reg : Register) (w : Option Width) :
    (moveRegister reg w : Action σ δ Unit) = read ((Opcode.move reg w).operands site.offset) >>= execute site := by
  cases w with
  | none => rfl
  | some w =>
    simp only [moveRegister, Opcode.operands, read_map, bind_assoc, pure_bind]
    rfl

theorem execute_selectFont (site : Site) (id : UInt32) :
    (execute site (.selectFont id) : Action σ δ Unit) = selectFont site id := by
  funext i
  simp only [execute, Machine.execute, selectFont, machine, Bind.bind, EStateM.bind]
  cases i.machine.fonts.contains id <;> rfl

theorem special_eq (site : Site) (w : Width) : (special w : Action σ δ Unit) =
    read (Command.readSpecial w) >>= execute site := by
  simp only [special, Command.readSpecial, read_bind, read_pure, bind_assoc, pure_bind]
  rfl

theorem defineFont_eq (site : Site) (w : Width) : (defineFont site w : Action σ δ Unit) =
    read ((Opcode.fontDef w).operands site.offset) >>= execute site := by
  simp only [defineFont, Opcode.operands, read_map, bind_assoc, pure_bind]
  congr 1; funext f; funext i
  simp only [execute, Machine.execute, Machine.defineFont, machine, Bind.bind, EStateM.bind]
  cases i.machine.fonts.find? f.id with
  | some first => rfl
  | none =>
    dsimp only
    obtain ⟨resolved, warnings, source⟩ := FontSource.resolve i.machine.source f
    dsimp only
    cases resolved.metrics <;> cases resolved.record <;> rfl

theorem execute_endPage (site : Site) : (execute site .endPage : Action σ δ Unit) = endPage site := by
  funext i
  simp only [execute, Machine.execute, endPage, machine, Bind.bind, EStateM.bind]
  by_cases hd : i.machine.graphics.depth = 0 <;> simp [hd] <;> rfl

theorem execute_pop (site : Site) : (execute site .pop : Action σ δ Unit) = pop site := by
  funext i
  simp only [execute, Machine.execute, pop, machine, Bind.bind, EStateM.bind]
  cases i.machine.graphics.pop <;> rfl

theorem readPostamble_eq (site : Site) : (readPostamble site >>= fun _ => enter .inPostamble : Action σ δ Unit) =
    read (Opcode.postamble.operands site.offset) >>= execute site := by
  simp only [readPostamble, Opcode.operands, read_map, bind_assoc, pure_bind]
  rfl

theorem readPostPostamble_eq (site : Site) :
    (readPostPostamble site >>= fun _ => enter .afterPostamble : Action σ δ Unit) =
      read Command.readPostPostamble >>= execute site := by
  simp only [readPostPostamble, Command.readPostPostamble, read_bind, read_pure, bind_assoc, pure_bind]
  congr 1; funext pointer; congr 1; funext id; funext i
  simp only [execute, Machine.execute, Machine.finish, machine, Bind.bind, EStateM.bind]
  cases i.machine.acceptsId id with
  | false => rfl
  | true =>
    refine congrArg (EStateM.Result.ok ()) ?_
    simp only [Interpreter.apply_eq, Interpreter.warn_eq, Option.map_map, List.append_assoc]
    rfl

/-- **What is done on a page for an opcode is to read its operands and then to execute the command.** -/
theorem onPage_eq {site : Site} {o : Opcode} (h : Phase.inPage.refusal site o = none) :
    (onPage site o : Action σ δ Unit) = read (o.operands site.offset) >>= execute site := by
  cases o with
  | setChar c => exact (execute_typeset site .set _).symm
  | set w | put w =>
    simp only [onPage, Opcode.operands, read_map, bind_assoc, pure_bind, execute_typeset]
  | setRule | putRule => exact rule_eq site _
  | nop => rfl
  | endPage => exact (execute_endPage site).symm
  | push => rfl
  | pop => exact (execute_pop site).symm
  | right w | down w =>
    simp only [onPage, Opcode.operands, read_map, bind_assoc, pure_bind]
    rfl
  | move reg w => exact moveRegister_eq site reg w
  | fontNum k => exact (execute_selectFont site _).symm
  | font w => simp only [onPage, Opcode.operands, read_map, bind_assoc, pure_bind, execute_selectFont]
  | special w => exact special_eq site w
  | fontDef w => exact defineFont_eq site w
  | beginPage | preamble | postamble | postPostamble | undefined k => cases h

/-- **So it is in every phase.** -/
theorem dispatch_eq {site : Site} {o : Opcode} {i : Interpreter σ δ} (hi : i.machine.phase.isFinal = false) :
    dispatch site o i = match i.machine.phase.refusal site o with
      | some err => .error err i
      | none => (read (o.operands site.offset) >>= execute site) i := by
  simp only [dispatch, machine, Bind.bind, EStateM.bind]
  cases hp : i.machine.phase with
  | awaitPreamble =>
    cases o with
    | preamble => exact congrFun (readPreamble_eq site) i
    | _ => rfl
  | betweenPages =>
    cases o with
    | fontDef w => exact congrFun (defineFont_eq site w) i
    | nop => rfl
    | beginPage => exact congrFun (beginPage_eq site) i
    | postamble => exact congrFun (readPostamble_eq site) i
    | _ => rfl
  | inPage =>
    cases hr : Phase.inPage.refusal site o with
    | none => exact congrFun (onPage_eq hr) i
    | some err => cases o <;> cases hr <;> rfl
  | inPostamble =>
    cases o with
    | fontDef w => exact congrFun (defineFont_eq site w) i
    | nop => rfl
    | postPostamble => exact congrFun (readPostPostamble_eq site) i
    | _ => rfl
  | afterPostamble | failed => simp [hp, Phase.isFinal] at hi

end Opcodes

end Action

namespace Interpreter

variable {σ δ : Type} [FontSource σ] [Device δ]

/-- A step that reads and does one thing after the other. -/
def interleavedStep (i : Interpreter σ δ) : Except Error Bool × Interpreter σ δ :=
  if i.machine.phase.isFinal then (.ok false, i)
  else
    match Action.next i with
    | .ok () j => (.ok (j.machine.phase != .afterPostamble), j)
    | .error err j => (.error err, { j with machine := { j.machine with phase := .failed } })

/-- **A step may as well do things while it reads.** -/
theorem interleavedStep_eq (i : Interpreter σ δ) : i.interleavedStep = i.step := by
  by_cases hi : i.machine.phase.isFinal = true
  · rw [interleavedStep, if_pos hi, step_of_isFinal hi]
  rw [interleavedStep, if_neg hi, step, Machine.step, if_neg hi]
  simp only [Action.next, Action.machine, Action.read, Action.update, Bind.bind, EStateM.bind]
  cases u8 i.machine.cursor with
  | error s c => rfl
  | ok byte c =>
    dsimp only
    rw [Action.attributed, EStateM.adaptExcept, Action.dispatch_eq (by simpa using hi)]
    dsimp only
    cases hr : i.machine.phase.refusal ⟨i.machine.cursor.pos, byte⟩ (Opcode.ofByte byte) with
    | some err =>
      simp only [Error.withOpcode_of_site? (Phase.site?_of_refusal hr)]
      rfl
    | none =>
      simp only [Action.read, Bind.bind, EStateM.bind]
      cases (Opcode.ofByte byte).operands i.machine.cursor.pos c with
      | error s c' => rfl
      | ok command c' =>
        simp only [Action.execute]
        cases hx : Machine.execute (σ := σ) _ _ command with
        | error err =>
          simp only [Error.withOpcode_of_site? (Machine.site?_of_execute hx)]
          rfl
        | ok e => rfl

theorem eq_of_failure {i j : Interpreter σ δ} {err : Error} (h : i.step = (.error err, j)) :
    j = { i with machine := { i.machine with
      cursor := j.machine.cursor, phase := .failed, lastOpcode := j.machine.lastOpcode } } := by
  obtain ⟨e, hs, rfl⟩ := exists_machine_step_of_failure h
  obtain ⟨-, -, c, last, -, he⟩ := Machine.of_step_eq_error hs
  simp only [he]

/-- **A step that fails has done nothing**, in whatever order a step reads and does things: the device, the log and
the fields of the machine are as before, except where the machine is, its phase, and the opcode that it has read last.
A run that fails therefore leaves the document that the steps before have made. -/
theorem frame_of_failure (i : Interpreter σ δ) :
    (∀ err j, i.interleavedStep = (.error err, j) → i.step = (.error err, j) ∧
      j = { i with machine := { i.machine with
        cursor := j.machine.cursor, phase := .failed, lastOpcode := j.machine.lastOpcode } }) ∧
    (∀ err j, i.run = (.error err, j) → ∃ n, (∀ k < n, (i.steps k).interleavedStep.1 = .ok true) ∧
      (i.steps n).interleavedStep = (.error err, j) ∧
      j = { i.steps n with machine := { (i.steps n).machine with
        cursor := j.machine.cursor, phase := .failed, lastOpcode := j.machine.lastOpcode } } ∧
      j.document = (i.steps n).document) := by
  refine ⟨fun err j h => ?_, fun err j h => ?_⟩
  · rw [interleavedStep_eq] at h
    exact ⟨h, eq_of_failure h⟩
  · obtain ⟨n, hbefore, hlast⟩ := i.exists_steps_of_run
    rw [h] at hlast
    have hj : j = _ := eq_of_failure hlast
    refine ⟨n, fun k hk => ?_, ?_, hj, ?_⟩
    · rw [interleavedStep_eq]
      exact hbefore k hk
    · rw [interleavedStep_eq]
      exact hlast
    · rw [hj]
      rfl

/-- The rule that is cut off is not drawn, and the position has not moved. -/
theorem frame_of_failure_twoPagesTorn :
    let i := Interpreter.start twoPagesTorn NoFonts.mk ({} : PageCollector)
    let j := i.steps 7
    (j.interleavedStep.1 = .error (.truncated ⟨91, 4, 1⟩ (some 137)) ∧
      j.step.2.machine.graphics = j.machine.graphics ∧ j.step.2.device = j.device) ∧
    (i.run.1 = .error (.truncated ⟨91, 4, 1⟩ (some 137)) ∧
      ∃ n, (∀ k < n, (i.steps k).interleavedStep.1 = .ok true) ∧ i.run.2.document = (i.steps n).document) ∧
    i.run.2.document.pages.map (·.events.size) = [2] := by
  intro i j
  have hstep : j.interleavedStep.1 = .error (.truncated ⟨91, 4, 1⟩ (some 137)) := by decide +kernel
  have hrun : i.run.1 = .error (.truncated ⟨91, 4, 1⟩ (some 137)) := by decide +kernel
  have hpages : i.run.2.document.pages.map (·.events.size) = [2] := by decide +kernel
  clear_value j
  clear_value i
  obtain ⟨hs, hj⟩ := (frame_of_failure j).1 _ _ (Prod.ext hstep rfl)
  obtain ⟨n, hbefore, -, -, hdocument⟩ := (frame_of_failure i).2 _ _ (Prod.ext hrun rfl)
  refine ⟨⟨hstep, ?_, ?_⟩, ⟨hrun, n, hbefore, hdocument⟩, hpages⟩
  · rw [hs, hj]
  · rw [hs, hj]

end Interpreter

end Dvi
