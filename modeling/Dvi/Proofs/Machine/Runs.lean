import Dvi.Interpreter
import Dvi.Proofs.Stream.Takes

/-!
# Runs of a machine

A successful step reads one command, which must be allowed in the phase of the machine, and executes it. A run
is a sequence of such steps together with what was executed.

* `Cursor.command?`: the command at a position;
* `Machine.Executes`: the ways a command is executed, what each asks of the machine and what it leaves.
  **`Machine.execute_eq_ok_iff`** says that there are no others;
* `Machine.Does`: one successful step, with all that it takes. **`Machine.step_eq_ok_iff`** says that it is one;
* `Machine.Runs`: successful steps in sequence; `Machine.history`: all commands that are executed;
* **`Interpreter.exists_runs`**: an interpreter executes a run and stops where its machine is final or fails;
* `exists_interpretPartial`: the same of whole streams.
-/

namespace Dvi

open Read

/-! ## The command at a position -/

namespace Cursor

/-- The command at a cursor, its place, and the cursor behind it. -/
def command? (c : Cursor) : Option (Site × Command × Cursor) :=
  match Read.u8 c with
  | .error _ _ => none
  | .ok byte c₁ =>
    match (Opcode.ofByte byte).operands c.pos c₁ with
    | .error _ _ => none
    | .ok command c₂ => some (⟨c.pos, byte⟩, command, c₂)

theorem command?_eq_some_iff {c c' : Cursor} {site : Site} {command : Command} :
    c.command? = some (site, command, c') ↔ site.offset = c.pos ∧ ∃ bs,
      c.Passes (site.opcode :: bs) c' ∧ ((Opcode.ofByte site.opcode).operands c.pos).Takes bs command := by
  unfold command?
  refine ⟨fun h => ?_, ?_⟩
  · split at h
    · cases h
    rename_i byte c₁ hb
    split at h
    · cases h
    rename_i hc
    cases h
    obtain ⟨xs, hx, htx⟩ := Local.takes hb
    obtain rfl := takes_u8.1 htx
    obtain ⟨bs, hp, ht⟩ := Local.takes hc
    exact ⟨rfl, bs, hx.trans hp, ht⟩
  · rintro ⟨ho, bs, hp, ht⟩
    obtain ⟨c₁, h₁, h₂⟩ := hp.first
    rw [takes_u8.2 rfl h₁]
    dsimp only
    rw [ht h₂]
    simp only [← ho]

theorem remaining_lt_of_command? {c c' : Cursor} {site : Site} {command : Command}
    (h : c.command? = some (site, command, c')) : c'.remaining < c.remaining := by
  obtain ⟨_, bs, hp, _⟩ := command?_eq_some_iff.1 h
  rw [← length_rest, ← length_rest, hp.rest, List.length_append, List.length_cons]
  omega

theorem passes_of_command? {c c' : Cursor} {site : Site} {command : Command}
    (h : c.command? = some (site, command, c')) : ∃ bs, c.Passes (site.opcode :: bs) c' :=
  (command?_eq_some_iff.1 h).2.imp fun _ h => h.1

theorem data_of_command? {c c' : Cursor} {site : Site} {command : Command}
    (h : c.command? = some (site, command, c')) : c'.data = c.data := by
  obtain ⟨bs, hp⟩ := passes_of_command? h
  exact hp.data

theorem of_seek {c c' : Cursor} {pos : Nat} (h : c.seek pos = some c') : c'.data = c.data ∧ c'.pos = pos := by
  unfold seek at h
  split at h <;> cases h
  exact ⟨rfl, rfl⟩

theorem seek_pos {c c' : Cursor} (h : c'.data = c.data) : c.seek c'.pos = some c' := by
  have hle : c'.pos ≤ c.data.size := h ▸ c'.pos_le
  rw [seek, dif_pos hle]
  exact congrArg some (eq_of_pos h.symm rfl)

theorem byteAt_eq (c : Cursor) (n : Nat) : c.byteAt n = c.data.data.toList[n]? := by
  unfold byteAt
  by_cases h : n < c.data.size
  · rw [getElem?_pos c.data n h, Array.getElem?_toList, Array.getElem?_eq_getElem h]
    rfl
  · rw [getElem?_neg c.data n h, Array.getElem?_toList, Array.getElem?_eq_none (by simpa using h)]

theorem peek_eq (c : Cursor) : c.peek = c.rest.head? := by
  rw [peek, byteAt_eq, rest, List.head?_drop]

theorem u8_eq_ok_iff {c c' : Cursor} {b : UInt8} :
    u8 c = .ok b c' ↔ c.peek = some b ∧ c'.data = c.data ∧ c'.pos = c.pos + 1 := by
  rw [peek_eq]
  constructor
  · intro h
    obtain ⟨bs, hp, ht⟩ := Local.takes h
    obtain rfl := takes_u8.1 ht
    exact ⟨by rw [hp.rest]; rfl, hp.data, hp.pos⟩
  · rintro ⟨hhead, hdata, hpos⟩
    obtain ⟨tail, hrest⟩ := List.head?_eq_some_iff.1 hhead
    rw [← List.singleton_append] at hrest
    obtain ⟨c₁, hp, -⟩ := exists_passes hrest
    rw [takes_u8.2 rfl hp, eq_of_pos (hp.data.trans hdata.symm) (hp.pos.trans hpos.symm)]

theorem peek_of_command? {c c' : Cursor} {site : Site} {command : Command}
    (h : c.command? = some (site, command, c')) : c.peek = some site.opcode := by
  obtain ⟨bs, hp⟩ := passes_of_command? h
  rw [peek_eq, hp.rest]
  rfl

theorem exists_beginPage_of_command? {c c' : Cursor} {site : Site} {command : Command}
    (h : c.command? = some (site, command, c')) (ho : Opcode.ofByte site.opcode = .beginPage) :
    ∃ counts back, command = .beginPage counts back := by
  obtain ⟨_, bs, _, ht⟩ := command?_eq_some_iff.1 h
  rw [ho] at ht
  obtain ⟨_, counts, _, back, -, -, -, rfl⟩ := Command.takes_readBeginPage.1 ht
  exact ⟨counts, back, rfl⟩

end Cursor

/-- The commands that stand on pages only and do not end them. -/
def Command.draws : Command → Bool
  | .typeset .. | .rule .. | .push | .pop | .right _ | .down _ | .move .. | .selectFont _ | .special _ => true
  | _ => false

/-- The preamble that a command gives. -/
def Command.preamble? : Command → Option Preamble
  | .preamble p => some p
  | _ => none

theorem Command.eq_of_preamble? {c : Command} {p : Preamble} (h : c.preamble? = some p) : c = .preamble p := by
  cases c <;> cases h
  rfl

namespace Phase

/-- The commands that may be executed in a phase. -/
def allows : Phase → Command → Bool
  | .awaitPreamble, c =>
    match c with
    | .preamble _ => true
    | _ => false
  | .betweenPages, c =>
    match c with
    | .defineFont _ | .nop | .beginPage .. | .postamble _ => true
    | _ => false
  | .inPage, c =>
    match c with
    | .beginPage .. | .preamble _ | .postamble _ | .postPostamble .. | .undefined => false
    | _ => true
  | .inPostamble, c =>
    match c with
    | .defineFont _ | .nop | .postPostamble .. => true
    | _ => false
  | .afterPostamble, _ => false
  | .failed, _ => false

/-- An opcode is refused if and only if its commands are not allowed. -/
theorem refusal_eq_none_iff {p : Phase} (hp : p.isFinal = false) {site : Site} {o : Opcode} {offset : Nat}
    {bs : List UInt8} {command : Command} (h : (o.operands offset).Takes bs command) :
    p.refusal site o = none ↔ p.allows command = true := by
  cases o with
  | setRule | putRule =>
    obtain ⟨_, _, _, _, _, _, _, rfl⟩ := Command.takes_readRule.1 h
    cases p <;> simp_all [refusal, allows, isFinal]
  | beginPage =>
    obtain ⟨_, _, _, _, _, _, _, rfl⟩ := Command.takes_readBeginPage.1 h
    cases p <;> simp_all [refusal, allows, isFinal]
  | special w =>
    obtain ⟨_, _, _, _, _, rfl⟩ := Command.takes_readSpecial.1 h
    cases p <;> simp_all [refusal, allows, isFinal]
  | postPostamble =>
    obtain ⟨_, _, _, _, _, rfl⟩ := Command.takes_readPostPostamble.1 h
    cases p <;> simp_all [refusal, allows, isFinal]
  | set w | put w | right w | down w | font w | fontDef w | preamble | postamble =>
    obtain ⟨_, _, rfl⟩ := takes_map.1 h
    cases p <;> simp_all [refusal, allows, isFinal]
  | move r w =>
    cases w with
    | none =>
      obtain ⟨_, rfl⟩ := takes_pure.1 h
      cases p <;> simp_all [refusal, allows, isFinal]
    | some w =>
      obtain ⟨_, _, rfl⟩ := takes_map.1 h
      cases p <;> simp_all [refusal, allows, isFinal]
  | setChar c | nop | endPage | push | pop | fontNum k | undefined i =>
    obtain ⟨_, rfl⟩ := takes_pure.1 h
    cases p <;> simp_all [refusal, allows, isFinal]

theorem eq_inPage_of_allows {p : Phase} {c : Command} (hc : c.draws = true) (h : p.allows c = true) :
    p = .inPage := by
  cases p <;> cases c <;> simp_all [allows, Command.draws]

theorem exists_preamble_of_allows {c : Command} (h : Phase.awaitPreamble.allows c = true) :
    ∃ p, c = .preamble p := by
  cases c <;> first | exact ⟨_, rfl⟩ | cases h

theorem eq_betweenPages_of_beginPage {p : Phase} {counts : Vector Int32 10} {back : Int32}
    (h : p.allows (.beginPage counts back) = true) : p = .betweenPages := by
  cases p <;> first | rfl | cases h

theorem isFinal_eq_false_of_allows {p : Phase} {c : Command} (h : p.allows c = true) :
    p.isFinal = false := by
  cases p <;> first | rfl | cases h

/-- The phase after a command. -/
def next (p : Phase) : Command → Phase
  | .preamble _ | .endPage => .betweenPages
  | .beginPage .. => .inPage
  | .postamble _ => .inPostamble
  | .postPostamble .. => .afterPostamble
  | _ => p

end Phase

/-! ## Steps -/

/-- How far something of a width moves the position. -/
def Placement.distance (placement : Placement) (width : Int32) : Int32 :=
  match placement with
  | .set => width
  | .put => 0

/-- A command that was executed, its place, and what the outside was told. -/
structure Executed where
  site : Site
  command : Command
  signals : List Signal := []
  warnings : List Warning := []

namespace Machine

variable {σ : Type} [FontSource σ]

/-- What a command brings about if it is executed. -/
inductive Executes (m : Machine σ) (site : Site) : Command → Effect σ → Prop
  | typeset {placement : Placement} {code font : UInt32} (hf : m.graphics.font = some font) :
    Executes m site (.typeset placement code) {
      machine := { m with graphics := m.graphics.moveRight (placement.distance ((m.charWidth font code).getD 0)) }
      signals := [.event (.char placement m.graphics.registers.h m.graphics.registers.v font code
        (m.charWidth font code))] }
  | rule {placement : Placement} {height width : Int32} :
    Executes m site (.rule placement height width) (m.drawRule placement height width)
  | nop : Executes m site .nop { machine := m }
  | beginPage {counts : Vector Int32 10} {back : Int32} :
    Executes m site (.beginPage counts back) (m.beginPage site counts back)
  | endPage (hd : m.graphics.depth = 0) :
    Executes m site .endPage { machine := { m with phase := .betweenPages }, signals := [.endPage] }
  | push : Executes m site .push {
      machine := { m with graphics := m.graphics.push, deepest := max m.deepest m.graphics.push.depth } }
  | pop {graphics : Graphics} (hg : m.graphics.pop = some graphics) :
    Executes m site .pop { machine := { m with graphics } }
  | right {d : Int32} : Executes m site (.right d) { machine := { m with graphics := m.graphics.moveRight d } }
  | down {d : Int32} : Executes m site (.down d) { machine := { m with graphics := m.graphics.moveDown d } }
  | move {r : Register} {d : Option Int32} :
    Executes m site (.move r d) { machine := { m with graphics := m.graphics.move r d } }
  | selectFont {id : UInt32} (hf : m.fonts.contains id = true) : Executes m site (.selectFont id) {
      machine := { m with graphics := { m.graphics with font := some id } }
      signals := [.event (.fontSelect id)] }
  | special {payload : ByteArray} : Executes m site (.special payload) {
      machine := m
      signals := [.event (.special m.graphics.registers.h m.graphics.registers.v payload)] }
  | defineFont {f : FontDefinition} : Executes m site (.defineFont f) (m.defineFont f)
  | preamble {p : Preamble} :
    Executes m site (.preamble p) { machine := { m with preamble := some p, phase := .betweenPages } }
  | postamble {p : Postamble} : Executes m site (.postamble p) {
      machine := { m with postamble := some p, phase := .inPostamble }
      warnings := m.postambleWarnings p }
  | postPostamble {pointer : Int32} {id : UInt8} (hid : m.acceptsId id = true) :
    Executes m site (.postPostamble pointer id) {
      machine := { m with
        phase := .afterPostamble
        postamble := m.postamble.map fun p => { p with postPointer := some pointer, id := some id } }
      warnings := m.postamble.elim [] (fun p =>
        if pointer = pointerTo p.offset then [] else [.postPointer p.offset pointer]) ++ paddingWarnings m.cursor }

/-- **A command is executed if and only if it can be, and with what it brings about.** -/
theorem execute_eq_ok_iff {m : Machine σ} {site : Site} {c : Command} {e : Effect σ} :
    m.execute site c = .ok e ↔ m.Executes site c e := by
  refine ⟨fun h => ?_, fun h => ?_⟩
  · cases c with
    | typeset placement code =>
      simp only [execute, Machine.typeset] at h
      split at h <;> cases h
      cases placement <;> exact .typeset ‹_›
    | endPage =>
      simp only [execute] at h
      split at h <;> cases h
      exact .endPage ‹_›
    | pop =>
      simp only [execute] at h
      split at h <;> cases h
      exact .pop ‹_›
    | selectFont id =>
      simp only [execute] at h
      split at h <;> cases h
      exact .selectFont ‹_›
    | postPostamble pointer id =>
      simp only [execute, finish] at h
      split at h <;> cases h
      have he : m.Executes site (.postPostamble pointer id) _ := .postPostamble ‹_›
      cases hp : m.postamble <;> simpa [hp] using he
    | undefined => cases h
    | _ =>
      cases h
      constructor
  · cases h with
    | @typeset placement code font hf =>
      simp only [execute, Machine.typeset, hf]
      cases placement <;> rfl
    | endPage hd => simp only [execute, if_pos hd]
    | pop hg => simp only [execute, hg]
    | selectFont hf => simp only [execute, if_pos hf]
    | postPostamble hid =>
      simp only [execute, finish, if_pos hid]
      cases m.postamble <;> rfl
    | _ => rfl

/-- The machine with a command read: behind its operands, with its place remembered. -/
def reading (m : Machine σ) (c : Cursor) (site : Site) : Machine σ :=
  { m with cursor := c, lastOpcode := some site }

/-- The machine reads and executes a command and is `m'` afterwards. -/
structure Does (m : Machine σ) (x : Executed) (m' : Machine σ) : Prop where
  read : m.cursor.command? = some (x.site, x.command, m'.cursor)
  allowed : m.phase.allows x.command = true
  executed : (m.reading m'.cursor x.site).execute x.site x.command =
    .ok { machine := m', signals := x.signals, warnings := x.warnings }

theorem does_of_execute {m : Machine σ} {site : Site} {command : Command} {c : Cursor} {e : Effect σ}
    (hread : m.cursor.command? = some (site, command, c)) (ha : m.phase.allows command = true)
    (he : (m.reading c site).execute site command = .ok e) :
    m.Does ⟨site, command, e.signals, e.warnings⟩ e.machine := by
  have hc : e.machine.cursor = c := cursor_of_execute he
  refine ⟨?_, ha, ?_⟩
  · rw [hc]
    exact hread
  · rw [hc]
    exact he

theorem Does.active {m m' : Machine σ} {x : Executed} (h : m.Does x m') : m.phase.isFinal = false :=
  Phase.isFinal_eq_false_of_allows h.allowed

theorem phase_of_execute {m : Machine σ} {site : Site} {c : Command} {e : Effect σ}
    (h : m.execute site c = .ok e) : e.machine.phase = m.phase.next c := by
  cases execute_eq_ok_iff.1 h with
  | defineFont =>
    unfold defineFont
    split <;> rfl
  | _ => rfl

theorem Does.phase {m m' : Machine σ} {x : Executed} (h : m.Does x m') : m'.phase = m.phase.next x.command :=
  phase_of_execute h.executed

theorem Does.ne_failed {m m' : Machine σ} {x : Executed} (h : m.Does x m') : m'.phase ≠ .failed := by
  have hm := h.active
  rw [h.phase]
  intro e
  cases hx : x.command <;> rw [hx] at e <;> simp_all [Phase.next, Phase.isFinal]

/-- **A step succeeds if and only if the machine reads and executes a command.** -/
theorem step_eq_ok_iff {m : Machine σ} (hm : m.phase.isFinal = false) {more : Bool} {e : Effect σ} :
    m.step = (.ok more, e) ↔ (∃ site command, m.Does ⟨site, command, e.signals, e.warnings⟩ e.machine) ∧
      more = (e.machine.phase != .afterPostamble) := by
  unfold step
  rw [if_neg (by simp [hm])]
  refine ⟨fun h => ?_, ?_⟩
  · split at h
    · cases h
    rename_i byte c hb
    dsimp only at h
    split at h
    · cases h
    rename_i hr
    split at h
    · cases h
    rename_i command c' ho
    split at h
    · cases h
    rename_i hx
    cases h
    have hc : c' = e.machine.cursor := (cursor_of_execute hx).symm
    subst hc
    obtain ⟨bs, _, ht⟩ := Local.takes ho
    refine ⟨⟨⟨m.cursor.pos, byte⟩, command, ?_, (Phase.refusal_eq_none_iff hm ht).1 hr, hx⟩, rfl⟩
    simp only [Cursor.command?, hb, ho]
  · rintro ⟨⟨site, command, hread, hallowed, hexec⟩, rfl⟩
    obtain ⟨ho, bs, hp, ht⟩ := Cursor.command?_eq_some_iff.1 hread
    obtain ⟨c₁, h₁, h₂⟩ := hp.first
    have hr : m.phase.refusal site (Opcode.ofByte site.opcode) = none :=
      (Phase.refusal_eq_none_iff hm ht).2 hallowed
    rw [takes_u8.2 rfl h₁]
    obtain ⟨offset, opcode⟩ := site
    subst ho
    dsimp only at hr ⊢
    rw [hr]
    dsimp only
    rw [ht h₂]
    simp only [reading] at hexec
    simp only [hexec]

theorem not_does_of_step_eq_error {m m' : Machine σ} {x : Executed} {err : Error} {e : Effect σ}
    (h : m.step = (.error err, e)) : ¬ m.Does x m' := by
  intro hx
  have hs := (step_eq_ok_iff hx.active (e := ⟨m', x.signals, x.warnings⟩)).2 ⟨⟨_, _, hx⟩, rfl⟩
  rw [h] at hs
  cases hs

theorem exists_step_eq_error {m : Machine σ} (hm : m.phase.isFinal = false)
    (h : ∀ x m', ¬ m.Does x m') : ∃ err e, m.step = (.error err, e) := by
  rcases hs : m.step with ⟨r, e⟩
  cases r with
  | error err => exact ⟨err, e, rfl⟩
  | ok more =>
    obtain ⟨⟨_, _, hd⟩, _⟩ := (step_eq_ok_iff hm).1 hs
    exact absurd hd (h _ _)

/-- A step that fails changes nothing but the cursor, the phase and the last opcode, and nothing is told. -/
theorem of_step_eq_error {m : Machine σ} {err : Error} {e : Effect σ} (h : m.step = (.error err, e)) :
    e.signals = [] ∧ e.warnings = [] ∧ ∃ c site, c.data = m.cursor.data ∧
      e.machine = { m with cursor := c, phase := .failed, lastOpcode := site } := by
  unfold step at h
  split at h
  · cases h
  split at h
  · rename_i s c hb
    cases h
    have hd := (forward_u8 m.cursor).1
    rw [Read.after, hb] at hd
    exact ⟨rfl, rfl, c, m.lastOpcode, hd, rfl⟩
  · rename_i byte c hb
    have hd := (forward_u8 m.cursor).1
    rw [Read.after, hb] at hd
    dsimp only at h
    split at h
    · cases h
      exact ⟨rfl, rfl, c, some ⟨_, byte⟩, hd, rfl⟩
    have hd' := ((Opcode.ofByte byte).forward_operands m.cursor.pos c).1
    split at h
    · rename_i ho
      cases h
      rw [Read.after, ho] at hd'
      exact ⟨rfl, rfl, _, some ⟨_, byte⟩, hd'.trans hd, rfl⟩
    rename_i ho
    rw [Read.after, ho] at hd'
    split at h
    · cases h
      exact ⟨rfl, rfl, _, some ⟨_, byte⟩, hd'.trans hd, rfl⟩
    · cases h

theorem step_of_isFinal {m : Machine σ} (h : m.phase.isFinal = true) :
    m.step = (.ok false, { machine := m }) := by
  rw [step, if_pos h]

/-! ## Runs -/

/-- `m` executes the commands `h`, one after the other, and is `m'` afterwards. -/
inductive Runs (m : Machine σ) : List Executed → Machine σ → Prop
  | nil : Runs m [] m
  | snoc {h : List Executed} {x : Executed} {m₁ m₂ : Machine σ} :
    Runs m h m₁ → m₁.Does x m₂ → Runs m (h ++ [x]) m₂

namespace Runs

theorem cons {m m₁ m₂ : Machine σ} {x : Executed} {h : List Executed} (hx : m.Does x m₁)
    (hr : m₁.Runs h m₂) : m.Runs (x :: h) m₂ := by
  induction hr with
  | nil => exact .snoc .nil hx
  | snoc _ hy ih => exact .snoc ih hy

theorem ne_failed {m m' : Machine σ} {h : List Executed} (hm : m.phase ≠ .failed) (hr : m.Runs h m') :
    m'.phase ≠ .failed := by
  cases hr with
  | nil => exact hm
  | snoc _ hx => exact hx.ne_failed

theorem cases_cons {m m' : Machine σ} {h : List Executed} (hr : m.Runs h m') :
    (h = [] ∧ m' = m) ∨ ∃ x t m₁, h = x :: t ∧ m.Does x m₁ ∧ m₁.Runs t m' := by
  induction hr with
  | nil => exact .inl ⟨rfl, rfl⟩
  | @snoc h x m₁ m₂ _ hx ih =>
    obtain ⟨rfl, rfl⟩ | ⟨y, t, m₀, rfl, hy, ht⟩ := ih
    · exact .inr ⟨x, [], m₂, rfl, hx, .nil⟩
    · exact .inr ⟨y, t ++ [x], m₀, rfl, hy, .snoc ht hx⟩

end Runs

/-! ## Histories -/

/-- The next command that the machine executes, and the machine after it. -/
def next? (m : Machine σ) : Option (Executed × Machine σ) :=
  match m.cursor.command? with
  | none => none
  | some (site, command, c) =>
    if m.phase.allows command then
      match (m.reading c site).execute site command with
      | .ok e => some (⟨site, command, e.signals, e.warnings⟩, e.machine)
      | .error _ => none
    else none

theorem next?_eq_some_iff {m m' : Machine σ} {x : Executed} : m.next? = some (x, m') ↔ m.Does x m' := by
  unfold next?
  refine ⟨fun h => ?_, fun h => ?_⟩
  · split at h
    · cases h
    rename_i site command c hread
    split at h
    · rename_i ha
      split at h
      · rename_i e he
        cases h
        exact does_of_execute hread ha he
      · cases h
    · cases h
  · rw [h.read]
    dsimp only
    rw [if_pos h.allowed, h.executed]

/-- All commands that a machine executes, up to where it is final or fails. -/
def history (m : Machine σ) : List Executed :=
  match _h : m.next? with
  | none => []
  | some (x, m') => x :: m'.history
termination_by m.cursor.remaining
decreasing_by exact Cursor.remaining_lt_of_command? (next?_eq_some_iff.1 _h).read

theorem history_of_does {m m' : Machine σ} {x : Executed} (h : m.Does x m') : m.history = x :: m'.history := by
  rw [history]
  split <;> rename_i h' <;> rw [next?_eq_some_iff.2 h] at h' <;> cases h'
  rfl

theorem history_of_isFinal {m : Machine σ} (h : m.phase.isFinal = true) : m.history = [] := by
  rw [history]
  split <;> rename_i h'
  · rfl
  · have := (next?_eq_some_iff.1 h').active
    rw [h] at this
    cases this

theorem Runs.history_eq {m m' : Machine σ} {h : List Executed} (hr : m.Runs h m') :
    m.history = h ++ m'.history := by
  induction hr with
  | nil => rfl
  | snoc _ hx ih => rw [ih, history_of_does hx, List.append_assoc, List.singleton_append]

end Machine

/-! ## Runs of an interpreter -/

namespace Interpreter

variable {σ δ : Type} [Device δ]

/-- The interpreter after a run of its machine. -/
def advance (i : Interpreter σ δ) (h : List Executed) (m : Machine σ) : Interpreter σ δ where
  machine := m
  device := (h.flatMap Executed.signals).foldl Device.receive i.device
  log := i.log ++ h.flatMap Executed.warnings

theorem apply_eq (i : Interpreter σ δ) (e : Effect σ) :
    i.apply e = ⟨e.machine, e.signals.foldl Device.receive i.device, i.log ++ e.warnings⟩ := by
  unfold apply
  cases e.warnings <;> simp

theorem advance_nil (i : Interpreter σ δ) : i.advance [] i.machine = i := by
  simp [advance]

theorem advance_singleton (i : Interpreter σ δ) (x : Executed) (m : Machine σ) :
    i.advance [x] m = ⟨m, x.signals.foldl Device.receive i.device, i.log ++ x.warnings⟩ := by
  simp only [advance, List.flatMap_cons, List.flatMap_nil, List.append_nil]

theorem advance_cons (i : Interpreter σ δ) (x : Executed) (h : List Executed) (m₁ m₂ : Machine σ) :
    (i.advance [x] m₁).advance h m₂ = i.advance (x :: h) m₂ := by
  simp [advance]

theorem advance_concat (i : Interpreter σ δ) (h : List Executed) (x : Executed) (m₁ m₂ : Machine σ) :
    i.advance (h ++ [x]) m₂ = (i.advance h m₁).advance [x] m₂ := by
  simp [advance]

variable [FontSource σ]

/-- A step of the interpreter is one of its machine, with the signals received and the warnings kept. -/
theorem step_of_does {i : Interpreter σ δ} {x : Executed} {m : Machine σ} (h : i.machine.Does x m) :
    i.step = (.ok (m.phase != .afterPostamble), i.advance [x] m) := by
  have hs : i.machine.step = (.ok (m.phase != .afterPostamble), ⟨m, x.signals, x.warnings⟩) :=
    (Machine.step_eq_ok_iff h.active).2 ⟨⟨_, _, h⟩, rfl⟩
  simp only [step, hs, apply_eq, advance_singleton]

theorem exists_does_of_step {i j : Interpreter σ δ} {more : Bool} (hi : i.machine.phase.isFinal = false)
    (h : i.step = (.ok more, j)) : ∃ x, i.machine.Does x j.machine ∧ j = i.advance [x] j.machine := by
  rcases hs : i.machine.step with ⟨r, e⟩
  simp only [step, hs, Prod.mk.injEq] at h
  obtain ⟨rfl, rfl⟩ := h
  obtain ⟨⟨site, c, hx⟩, _⟩ := (Machine.step_eq_ok_iff hi).1 hs
  exact ⟨_, hx, by rw [advance_singleton, apply_eq]⟩

theorem step_of_isFinal {i : Interpreter σ δ} (h : i.machine.phase.isFinal = true) :
    i.step = (.ok false, i) := by
  simp only [step, Machine.step_of_isFinal h, apply_eq, List.foldl_nil, List.append_nil]

theorem step_of_failure {i : Interpreter σ δ} {err : Error} {e : Effect σ} (h : i.machine.step = (.error err, e)) :
    i.step = (.error err, { i with machine := e.machine }) := by
  obtain ⟨hsignals, hwarnings, _⟩ := Machine.of_step_eq_error h
  simp only [step, h, apply_eq, hsignals, hwarnings, List.foldl_nil, List.append_nil]

theorem exists_machine_step_of_failure {i j : Interpreter σ δ} {err : Error} (h : i.step = (.error err, j)) :
    ∃ e, i.machine.step = (.error err, e) ∧ j = { i with machine := e.machine } := by
  rcases hs : i.machine.step with ⟨r, e⟩
  obtain rfl : r = .error err := by
    simp only [step, hs, Prod.mk.injEq] at h
    exact h.1
  exact ⟨e, rfl, (congrArg Prod.snd ((step_of_failure hs).symm.trans h)).symm⟩

theorem run_of_step {i j : Interpreter σ δ} (h : i.step = (.ok true, j)) : i.run = j.run := by
  rw [run]
  split <;> rename_i e <;> rw [h] at e <;> cases e
  rfl

theorem run_of_last_step {i j : Interpreter σ δ} (h : i.step = (.ok false, j)) : i.run = (.ok (), j) := by
  rw [run]
  split <;> rename_i e <;> rw [h] at e <;> cases e
  rfl

theorem run_of_failure {i j : Interpreter σ δ} {err : Error} (h : i.step = (.error err, j)) :
    i.run = (.error err, j) := by
  rw [run]
  split <;> rename_i e <;> rw [h] at e <;> cases e
  rfl

theorem run_of_does {i : Interpreter σ δ} {x : Executed} {m : Machine σ} (h : i.machine.Does x m) :
    i.run = (i.advance [x] m).run := by
  have hs := step_of_does h
  by_cases hm : m.phase = .afterPostamble
  · have hf : (i.advance [x] m).machine.phase.isFinal = true := by simp only [advance, hm, Phase.isFinal]
    rw [hm, bne_self_eq_false] at hs
    rw [run_of_last_step hs, run_of_last_step (step_of_isFinal hf)]
  · rw [bne_iff_ne.2 hm] at hs
    exact run_of_step hs

theorem run_of_runs {i : Interpreter σ δ} {h : List Executed} {m : Machine σ}
    (hr : i.machine.Runs h m) : i.run = (i.advance h m).run := by
  induction h generalizing i with
  | nil =>
    obtain ⟨_, rfl⟩ | ⟨_, _, _, h, _⟩ := hr.cases_cons
    · rw [advance_nil]
    · cases h
  | cons x t ih =>
    obtain ⟨h, _⟩ | ⟨_, _, m₁, h, hx, ht⟩ := hr.cases_cons
    · cases h
    · cases h
      rw [run_of_does hx, ih ht, advance_cons]

/-- **An interpreter executes a run, and then its machine is final or a step fails.** -/
theorem exists_runs (i : Interpreter σ δ) : ∃ h m, i.machine.Runs h m ∧
    ((m.phase.isFinal = true ∧ i.run = (.ok (), i.advance h m)) ∨
      ∃ err e, m.step = (.error err, e) ∧ i.run = (.error err, i.advance h e.machine)) := by
  by_cases hm : i.machine.phase.isFinal = true
  · refine ⟨[], i.machine, .nil, .inl ⟨hm, ?_⟩⟩
    rw [run_of_last_step (step_of_isFinal hm), advance_nil]
  have hm' : i.machine.phase.isFinal = false := by simpa using hm
  by_cases hd : ∃ x m, i.machine.Does x m
  · obtain ⟨x, m₁, hx⟩ := hd
    have hlt : (i.advance [x] m₁).machine.cursor.remaining < i.machine.cursor.remaining :=
      Cursor.remaining_lt_of_command? hx.read
    obtain ⟨h, m, hr, hend⟩ := exists_runs (i.advance [x] m₁)
    rw [advance_cons] at hend
    refine ⟨x :: h, m, hr.cons hx, ?_⟩
    rw [run_of_does hx]
    obtain ⟨hf, he⟩ | ⟨err, e, hs, he⟩ := hend
    · exact .inl ⟨hf, he⟩
    · rw [advance_cons] at he
      exact .inr ⟨err, e, hs, he⟩
  · obtain ⟨err, e, hs⟩ := Machine.exists_step_eq_error hm' fun x m h => hd ⟨x, m, h⟩
    refine ⟨[], i.machine, .nil, .inr ⟨err, e, hs, ?_⟩⟩
    rw [run_of_failure (step_of_failure hs)]
    simp only [advance, List.flatMap_nil, List.foldl_nil, List.append_nil]
termination_by i.machine.cursor.remaining

end Interpreter

/-! ## Whole streams -/

section InterpretPartial

variable {σ : Type} [FontSource σ]

theorem interpretPartial_of_runs {data : ByteArray} {source : σ} {h : List Executed} {m : Machine σ}
    (hr : (Machine.start data source).Runs h m) (hm : m.phase = .afterPostamble) :
    interpretPartial data source = ⟨.ok (), (Interpreter.start data source {}).advance h m⟩ := by
  have hf : ((Interpreter.start data source ({} : PageCollector)).advance h m).machine.phase.isFinal = true := by
    simp only [Interpreter.advance, hm, Phase.isFinal]
  have hrun : (Interpreter.start data source ({} : PageCollector)).run = _ := Interpreter.run_of_runs hr
  rw [Interpreter.run_of_last_step (Interpreter.step_of_isFinal hf)] at hrun
  simp only [interpretPartial, hrun]

/-- **Interpreting a stream is a run, to the end or to where a step fails.** -/
theorem exists_interpretPartial (data : ByteArray) (source : σ) : ∃ h m,
    (Machine.start data source).Runs h m ∧
    ((m.phase = .afterPostamble ∧
        interpretPartial data source = ⟨.ok (), (Interpreter.start data source {}).advance h m⟩) ∨
      ∃ err e, m.step = (.error err, e) ∧
        interpretPartial data source = ⟨.error err, (Interpreter.start data source {}).advance h e.machine⟩) := by
  obtain ⟨h, m, hr, hend⟩ := (Interpreter.start data source ({} : PageCollector)).exists_runs
  refine ⟨h, m, hr, ?_⟩
  obtain ⟨hf, _⟩ | ⟨err, e, hs, he⟩ := hend
  · have hm : m.phase = .afterPostamble := by
      have := hr.ne_failed (by simp [Interpreter.start, Machine.start])
      cases hp : m.phase <;> simp_all [Phase.isFinal]
    exact .inl ⟨hm, interpretPartial_of_runs hr hm⟩
  · exact .inr ⟨err, e, hs, by simp only [interpretPartial, he]⟩

/-- A stream that can be read to its end is read by executing its history. -/
theorem exists_runs_of_interpret {data : ByteArray} {source : σ} {doc : Document}
    (hd : interpret data source = .ok doc) : ∃ m,
      (Machine.start data source).Runs (Machine.start data source).history m ∧ m.phase = .afterPostamble ∧
      interpretPartial data source =
        ⟨.ok (), (Interpreter.start data source {}).advance (Machine.start data source).history m⟩ ∧
      doc = ((Interpreter.start data source ({} : PageCollector)).advance
        (Machine.start data source).history m).document := by
  obtain ⟨h, m, hr, ⟨hm, hi⟩ | ⟨err, e, _, he⟩⟩ := exists_interpretPartial data source
  · have hh : (Machine.start data source).history = h := by
      rw [hr.history_eq, Machine.history_of_isFinal (by rw [hm]; rfl), List.append_nil]
    rw [interpret, hi] at hd
    rw [hh]
    exact ⟨m, hr, hm, hi, (Except.ok.inj hd).symm⟩
  · rw [interpret, he] at hd
    cases hd

end InterpretPartial

end Dvi
