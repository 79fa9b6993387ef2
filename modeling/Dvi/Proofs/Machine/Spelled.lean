import Dvi.Proofs.Machine.Drawing
import Dvi.Proofs.Machine.Steps
import Dvi.Proofs.Stream.Spellings

/-!
# Commands in different spellings

On a page, a command does the same however it is spelled: with a narrow operand or a wide one, with an opcode that
holds a small operand, or as a move by what a register holds.

* `Machine.proceed`: a step once the opcode is known. **`Machine.step_of_spells`**: it goes on behind the operand;
* `Machine.execute_fill`: a move without operand is one by the register's own distance;
* `Machine.Executes.reading`: commands on pages see neither the cursor nor their opcode;
* **`Machine.sameStep_proceed`**: with the same bytes ahead a command comes to the same;
* **`Interpreter.step_alike_of_spells`**: steps over two spellings, with the same bytes behind.
-/

namespace Dvi

open Read Opcode

/-- Errors of one command in two spellings: as many bytes are missed, or the same complaint is made of the command. -/
inductive Error.Alike : Error → Error → Prop
  | truncated {s t : Shortfall} {o p : UInt8} (hw : t.wanted = s.wanted) (hr : t.remaining = s.remaining) :
    Alike (.truncated s (some o)) (.truncated t (some p))
  | stackUnderflow {s t : Site} (h : t.offset = s.offset) : Alike (.stackUnderflow s) (.stackUnderflow t)
  | undefinedFont {s t : Site} {font : UInt32} (h : t.offset = s.offset) :
    Alike (.undefinedFont s font) (.undefinedFont t font)
  | noFontSelected {s t : Site} (h : t.offset = s.offset) : Alike (.noFontSelected s) (.noFontSelected t)

/-- Both steps succeed in the same way, or they fail alike. -/
inductive SameResult : Except Error Bool → Except Error Bool → Prop
  | ok (more : Bool) : SameResult (.ok more) (.ok more)
  | error {e e' : Error} (h : e.Alike e') : SameResult (.error e) (.error e')

theorem Registers.set_get (r : Registers) (reg : Register) : r.set reg (r.get reg) = r := by
  cases reg <;> rfl

namespace Machine

variable {σ : Type} [FontSource σ]

theorem execute_fill (m : Machine σ) (site : Site) (c : Command) :
    m.execute site (c.fill m.graphics.registers) = m.execute site c := by
  unfold Command.fill
  split
  · simp only [execute, Graphics.move, Registers.set_get]
  · rfl

/-- A step once the opcode is read, from what comes of reading the operands. -/
def proceed (m : Machine σ) (site : Site) :
    EStateM.Result Shortfall Cursor Command → Except Error Bool × Effect σ
  | .error s c => (.error (.truncated s (some site.opcode)), { machine := (m.reading c site).fail c })
  | .ok command c =>
    match (m.reading c site).execute site command with
    | .error e => (.error e, { machine := (m.reading c site).fail c })
    | .ok effect => (.ok (effect.machine.phase != .afterPostamble), effect)

theorem step_eq_proceed {m : Machine σ} (hm : m.phase = .inPage) {o : Opcode}
    (ho : ∀ site, Phase.inPage.refusal site o = none) {c : Cursor} (hc : u8 m.cursor = .ok o.toByte c) :
    m.step = m.proceed ⟨m.cursor.pos, o.toByte⟩ (o.operands m.cursor.pos c) := by
  have hr : m.phase.refusal ⟨m.cursor.pos, o.toByte⟩ (Opcode.ofByte o.toByte) = none := by
    rw [hm, Opcode.ofByte_toByte, ho]
  unfold step
  rw [if_neg (by rw [hm]; decide), hc]
  dsimp only
  rw [hr, Opcode.ofByte_toByte]
  cases o.operands m.cursor.pos c <;> rfl

theorem proceed_fill (m : Machine σ) (site : Site) (r : Read Command) (c : Cursor) :
    m.proceed site ((Command.fill m.graphics.registers <$> r) c) = m.proceed site (r c) := by
  simp only [Functor.map, EStateM.map]
  cases r c with
  | error s c' => rfl
  | ok command c' =>
    simp only [proceed]
    rw [show m.graphics.registers = (m.reading c' site).graphics.registers from rfl, execute_fill]

/-- **A step over a command goes on behind its operand**, however that is spelled. -/
theorem step_of_spells {m : Machine σ} (hm : m.phase = .inPage) {f : Family} {v : Int} {bytes : List UInt8}
    (h : f.Spells m.graphics.registers v bytes) {c : Cursor} (hp : m.cursor.Passes bytes c) :
    ∃ b, m.step = m.proceed ⟨m.cursor.pos, b⟩ (f.behind m.cursor.pos v c) := by
  obtain ⟨o, bs, rfl, ho, hbehind⟩ := h.exists_operands_eq
  obtain ⟨c₁, h₁, h₂⟩ := hp.first
  refine ⟨o.toByte, ?_⟩
  rw [step_eq_proceed hm ho (takes_u8.2 rfl h₁), ← hbehind m.cursor.pos h₂, proceed_fill]

theorem Executes.reading {m : Machine σ} {c : Cursor} {s : Site} {x : Command} {e : Effect σ}
    (h : (m.reading c s).Executes s x e) (hx : x.isOnPage = true) (d : Cursor) (t : Site) :
    (m.reading d t).Executes t x { e with machine := e.machine.reading d t } := by
  cases h with
  | typeset hf => exact .typeset hf
  | pop hg => exact .pop hg
  | selectFont hf => exact .selectFont hf
  | @defineFont f =>
    have he : (m.reading d t).defineFont f =
        { (m.reading c s).defineFont f with machine := ((m.reading c s).defineFont f).machine.reading d t } := by
      simp only [Machine.defineFont, Machine.reading]
      cases m.fonts.find? f.id <;> rfl
    rw [← he]
    exact .defineFont
  | rule => exact .rule
  | nop => exact .nop
  | push => exact .push
  | right => exact .right
  | down => exact .down
  | move => exact .move
  | special => exact .special
  | beginPage | endPage | preamble | postamble | postPostamble => cases hx

theorem exists_alike_of_execute {m : Machine σ} {c : Cursor} {s : Site} {x : Command} {err : Error}
    (h : (m.reading c s).execute s x = .error err) (hx : x.isOnPage = true) (d : Cursor) {t : Site}
    (hst : t.offset = s.offset) : ∃ err', (m.reading d t).execute t x = .error err' ∧ err.Alike err' := by
  cases x with
  | typeset placement code =>
    simp only [execute, typeset] at h
    split at h <;> cases h
    rename_i hf
    have hf' : (m.reading d t).graphics.font = none := hf
    exact ⟨_, by simp only [execute, typeset, hf'], .noFontSelected hst⟩
  | selectFont id =>
    simp only [execute] at h
    split at h <;> cases h
    rename_i hf
    exact ⟨_, if_neg hf, .undefinedFont hst⟩
  | pop =>
    simp only [execute] at h
    split at h <;> cases h
    rename_i hg
    have hg' : (m.reading d t).graphics.pop = none := hg
    exact ⟨_, by simp only [execute, hg'], .stackUnderflow hst⟩
  | beginPage | endPage | preamble | postamble | postPostamble | undefined => cases hx
  | _ => cases h

/-- Two steps come to the same: they result in the same, leave the same bytes, machines that differ at most in the
cursor and the last opcode, and tell the same. -/
structure SameStep (a b : Except Error Bool × Effect σ) : Prop where
  result : SameResult a.1 b.1
  rest : b.2.machine.cursor.rest = a.2.machine.cursor.rest
  machine : b.2.machine =
    { a.2.machine with cursor := b.2.machine.cursor, lastOpcode := b.2.machine.lastOpcode }
  signals : b.2.signals = a.2.signals
  warnings : b.2.warnings = a.2.warnings

/-- **With the same bytes ahead a command comes to the same.** -/
theorem sameStep_proceed (m : Machine σ) {s t : Site} (hst : t.offset = s.offset)
    {x y : EStateM.Result Shortfall Cursor Command} (hxy : Matches x y)
    (hon : ∀ command c, x = .ok command c → command.isOnPage = true) :
    SameStep (m.proceed s x) (m.proceed t y) := by
  cases hxy with
  | error hw hr hrest => exact ⟨.error (.truncated hw hr), hrest, rfl, rfl, rfl⟩
  | @ok command c d hrest =>
    have hc := hon command c rfl
    rcases he : (m.reading c s).execute s command with err | e
    · obtain ⟨err', he', halike⟩ := exists_alike_of_execute he hc d hst
      simp only [proceed, he, he']
      exact ⟨.error halike, hrest, rfl, rfl, rfl⟩
    · have he' := execute_eq_ok_iff.2 ((execute_eq_ok_iff.1 he).reading hc d t)
      have hcursor : e.machine.cursor = c := cursor_of_execute he
      simp only [proceed, he, he']
      exact ⟨.ok _, by rw [hcursor]; exact hrest, rfl, rfl, rfl⟩

end Machine

theorem Opcode.Family.isOnPage_of_behind {f : Family} {offset : Nat} {v : Int} {c c' : Cursor} {x : Command}
    (h : f.behind offset v c = .ok x c') : x.isOnPage = true := by
  cases f with
  | special =>
    obtain ⟨payload, c₁, -, hx⟩ := bind_eq_ok_iff.1 h
    cases hx
    rfl
  | fontDef =>
    obtain ⟨definition, c₁, -, hx⟩ := bind_eq_ok_iff.1 h
    cases hx
    rfl
  | _ =>
    cases h
    rfl

/-! ## In front of given bytes -/

/-- The cursor in the same place of a stream that goes on with other bytes. -/
def Cursor.facing (c : Cursor) (bytes : List UInt8) : Cursor where
  data := ⟨(c.data.data.toList.take c.pos ++ bytes).toArray⟩
  pos := c.pos
  pos_le := by
    have hle : c.pos ≤ c.data.data.toList.length := c.pos_le
    change c.pos ≤ (c.data.data.toList.take c.pos ++ bytes).toArray.size
    simp only [List.size_toArray, List.length_append, List.length_take]
    omega

theorem Cursor.rest_facing (c : Cursor) (bytes : List UInt8) : (c.facing bytes).rest = bytes := by
  have hle : c.pos ≤ c.data.data.toList.length := c.pos_le
  simp only [rest, facing]
  rw [List.drop_append_of_le_length (by rw [List.length_take]; omega), List.drop_eq_nil_of_le (by
    rw [List.length_take]; omega), List.nil_append]

namespace Interpreter

variable {σ δ : Type} [FontSource σ] [Device δ]

/-- The interpreter as it is, in front of other bytes. -/
def facing (i : Interpreter σ δ) (bytes : List UInt8) : Interpreter σ δ :=
  { i with machine := { i.machine with cursor := i.machine.cursor.facing bytes } }

theorem exists_step_facing {i : Interpreter σ δ} (hi : i.machine.phase = .inPage) {f : Family} {v : Int}
    {bytes : List UInt8} (h : f.Spells i.machine.graphics.registers v bytes) (rest : List UInt8) :
    ∃ (b : UInt8) (c : Cursor), c.rest = rest ∧
      let p := i.machine.proceed ⟨i.machine.cursor.pos, b⟩ (f.behind i.machine.cursor.pos v c)
      (i.facing (bytes ++ rest)).step = (p.1, i.apply p.2) := by
  obtain ⟨c, hc, hrest⟩ := Cursor.exists_passes (i.machine.cursor.rest_facing (bytes ++ rest))
  obtain ⟨b, hstep⟩ := Machine.step_of_spells (m := (i.facing (bytes ++ rest)).machine) hi h hc
  refine ⟨b, c, hrest, ?_⟩
  rw [step, hstep]
  rfl

/-- **Two spellings of a command, with the same bytes behind, come to the same**: the step succeeds or fails alike, the
same bytes are left unread, and the two interpreters differ in nothing but the cursor and the last opcode. -/
theorem step_alike_of_spells {i : Interpreter σ δ} (hi : i.machine.phase = .inPage) {f : Family} {v : Int}
    {xs ys : List UInt8} (hx : f.Spells i.machine.graphics.registers v xs)
    (hy : f.Spells i.machine.graphics.registers v ys) (rest : List UInt8) :
    let a := (i.facing (xs ++ rest)).step
    let b := (i.facing (ys ++ rest)).step
    SameResult a.1 b.1 ∧ b.2.machine.cursor.rest = a.2.machine.cursor.rest ∧
      b.2.machine = { a.2.machine with cursor := b.2.machine.cursor, lastOpcode := b.2.machine.lastOpcode } ∧
      b.2.device = a.2.device ∧ b.2.log = a.2.log := by
  obtain ⟨b, c, hc, ha⟩ := exists_step_facing hi hx rest
  obtain ⟨b', d, hd, hb⟩ := exists_step_facing hi hy rest
  have hsame := i.machine.sameStep_proceed (s := ⟨i.machine.cursor.pos, b⟩) (t := ⟨i.machine.cursor.pos, b'⟩) rfl
    (Relative.read (r := f.behind i.machine.cursor.pos v) (hd.trans hc.symm)) fun _ _ => Family.isOnPage_of_behind
  rw [ha, hb]
  simp only [apply_eq]
  exact ⟨hsame.result, hsame.rest, hsame.machine, by rw [hsame.signals], by rw [hsame.warnings]⟩

end Interpreter

/-- A movement by -2, in one byte and in three, on the first page of the stream of two pages. -/
theorem Interpreter.step_alike_of_spells_twoPages :
    let i := (Interpreter.start twoPages NoFonts.mk ({} : PageCollector)).steps 3
    ((i.facing ([143, 254] ++ [140])).step.2.machine.graphics.registers.h = -2) ∧
      let a := (i.facing ([143, 254] ++ [140])).step
      let b := (i.facing ([145, 255, 255, 254] ++ [140])).step
      SameResult a.1 b.1 ∧ b.2.machine.cursor.rest = a.2.machine.cursor.rest ∧
        b.2.machine = { a.2.machine with cursor := b.2.machine.cursor, lastOpcode := b.2.machine.lastOpcode } ∧
        b.2.device = a.2.device ∧ b.2.log = a.2.log := by
  intro i
  have hi : i.machine.phase = .inPage := by decide +kernel
  have hx : Family.right.Spells i.machine.graphics.registers (-2) [143, 254] :=
    .operand (w := .one) (by decide)
  have hy : Family.right.Spells i.machine.graphics.registers (-2) [145, 255, 255, 254] :=
    .operand (w := .three) (by decide)
  exact ⟨by decide +kernel, step_alike_of_spells hi hx hy [140]⟩

end Dvi
