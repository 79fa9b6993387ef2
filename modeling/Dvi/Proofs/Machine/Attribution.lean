import Dvi.Proofs.Machine.Drawing
import Dvi.Proofs.Machine.Steps
import Dvi.Proofs.Stream.Shortfalls
import Mathlib.Control.Monad.Basic

/-!
# What errors are about

An error of a step is about the command at which the step was made, or about the bytes that it has missed.

* `Error.site?`: the command that an error is about;
* `Machine.site?_of_execute`, `Phase.site?_of_refusal`: a command that may not stand where it does, or cannot be
  executed, is what the error is about;
* `Machine.ReadsOpcode`: where a step has read its opcode;
* **`Interpreter.attribution_of_step`**: where the error of a step points, and what it says of the place.
-/

namespace Dvi

open Read

/-- The command that an error is about. -/
def Error.site? : Error → Option Site
  | .malformedHeader s | .unexpectedOpcode s | .malformedOpcode s | .stackUnderflow s
  | .unbalancedStack s _ | .undefinedFont s _ | .noFontSelected s | .versionMismatch s _ _ => some s
  | _ => none

theorem Error.of_site? {err : Error} {site : Site} (h : err.site? = some site) :
    err.offset = some site.offset ∧ err.opcode = some site.opcode := by
  cases err <;> cases h <;> exact ⟨rfl, rfl⟩

theorem Phase.site?_of_refusal {p : Phase} {site : Site} {o : Opcode} {err : Error}
    (h : p.refusal site o = some err) : err.site? = some site := by
  cases p <;> cases o <;> cases h <;> rfl

namespace Machine

variable {σ : Type} [FontSource σ]

theorem site?_of_execute {m : Machine σ} {site : Site} {c : Command} {err : Error}
    (h : m.execute site c = .error err) : err.site? = some site := by
  cases c with
  | typeset p code =>
    simp only [execute, typeset] at h
    split at h <;> cases h
    rfl
  | endPage | pop | selectFont id =>
    simp only [execute] at h
    split at h <;> cases h
    rfl
  | postPostamble p i =>
    simp only [execute, finish] at h
    split at h <;> cases h
    rfl
  | undefined =>
    cases h
    rfl
  | _ => cases h

omit [FontSource σ] in
/-- A step from `m` to `m'` has read the opcode at `site`. -/
structure ReadsOpcode (m : Machine σ) (site : Site) (m' : Machine σ) : Prop where
  offset : site.offset = m.cursor.pos
  byte : m.cursor.byteAt site.offset = some site.opcode
  last : m'.lastOpcode = some site

/-- The machine `m'` after a step of `m` that has failed, and what the error is about. -/
inductive Blames (m m' : Machine σ) : Error → Prop
  | noOpcode (atEnd : m.cursor.pos = m.cursor.data.size)
    (short : u8.FallsShort m.cursor ⟨m.cursor.data.size, 1, 0⟩ m'.cursor) :
    Blames m m' (.truncated ⟨m.cursor.data.size, 1, 0⟩ none)
  | noOperands {site : Site} {c : Cursor} {s : Shortfall} (opened : m.ReadsOpcode site m')
    (read : u8 m.cursor = .ok site.opcode c)
    (short : ((Opcode.ofByte site.opcode).operands site.offset).FallsShort c s m'.cursor) :
    Blames m m' (.truncated s (some site.opcode))
  | command {site : Site} {err : Error} (opened : m.ReadsOpcode site m') (about : err.site? = some site) :
    Blames m m' err

theorem blames_of_step {m : Machine σ} {err : Error} {e : Effect σ} (h : m.step = (.error err, e)) :
    m.Blames e.machine err := by
  unfold step at h
  split at h
  · cases h
  split at h
  · rename_i hb
    cases h
    obtain ⟨rfl, rfl, hend⟩ := u8_eq_error hb
    exact .noOpcode hend (Stepwise.fallsShort hb)
  rename_i byte c hb
  have opened : ∀ c', m.ReadsOpcode ⟨m.cursor.pos, byte⟩
      (Machine.fail { m with lastOpcode := some ⟨m.cursor.pos, byte⟩ } c') :=
    fun _ => ⟨rfl, (Cursor.u8_eq_ok_iff.1 hb).1, rfl⟩
  dsimp only at h
  split at h
  · rename_i hr
    cases h
    exact .command (opened c) (Phase.site?_of_refusal hr)
  split at h
  · rename_i s c' ho
    cases h
    exact .noOperands (opened c') hb (Stepwise.fallsShort ho)
  rename_i command c' ho
  split at h
  · rename_i hx
    cases h
    exact .command (opened c') (site?_of_execute hx)
  · cases h

end Machine

namespace Interpreter

/-- **A step that fails says where, and of which command.** Either bytes are missing: the error is about the read
that has wanted them, at the cursor where the step stops, and names the opcode whose operand was read, unless the
opcode itself is missing. Or the command is wrong: the error is about the opcode that the step has read. -/
theorem attribution_of_step {σ δ : Type} [FontSource σ] [Device δ] {i j : Interpreter σ δ} {err : Error}
    (h : i.step = (.error err, j)) :
    (∃ s opcode, err = .truncated s opcode ∧ s.offset = j.machine.cursor.pos ∧
      s.offset + s.remaining = i.machine.cursor.data.size ∧ s.remaining < s.wanted ∧
      ((i.machine.cursor.peek = none ∧ opcode = none ∧ s = ⟨i.machine.cursor.data.size, 1, 0⟩ ∧
          u8.FallsShort i.machine.cursor s j.machine.cursor) ∨
        ∃ site c, i.machine.ReadsOpcode site j.machine ∧ opcode = some site.opcode ∧
          u8 i.machine.cursor = .ok site.opcode c ∧
          ((Opcode.ofByte site.opcode).operands site.offset).FallsShort c s j.machine.cursor)) ∨
    (∃ site, i.machine.ReadsOpcode site j.machine ∧ err.site? = some site ∧ err.offset = some site.offset ∧
      err.opcode = some site.opcode) := by
  obtain ⟨e, hs, rfl⟩ := exists_machine_step_of_failure h
  obtain ⟨-, -, c, last, hdata, he⟩ := Machine.of_step_eq_error hs
  have hsize : e.machine.cursor.pos + e.machine.cursor.remaining = i.machine.cursor.data.size := by
    rw [Cursor.pos_add_remaining, he, hdata]
  cases Machine.blames_of_step hs with
  | noOpcode atEnd short =>
    obtain ⟨hoffset, hremaining, hwanted⟩ := short.shortfall_eq
    refine .inl ⟨_, _, rfl, hoffset, ?_, hwanted, .inl ⟨?_, rfl, rfl, short⟩⟩
    · rw [hoffset, hremaining, hsize]
    · rw [Cursor.peek, Cursor.byteAt, atEnd]
      exact getElem?_neg _ _ (Nat.lt_irrefl _)
  | noOperands opened read short =>
    obtain ⟨hoffset, hremaining, hwanted⟩ := short.shortfall_eq
    refine .inl ⟨_, _, rfl, hoffset, ?_, hwanted, .inr ⟨_, _, opened, rfl, read, short⟩⟩
    rw [hoffset, hremaining, hsize]
  | command opened about => exact .inr ⟨_, opened, about, Error.of_site? about⟩

end Interpreter

/-- The stream of two pages, cut off in the second operand of the rule on the first page. -/
def twoPagesTorn : ByteArray := twoPages.extract 0 92

/-- The rule at 86 misses three of the four bytes of its width, which begins at 91. -/
theorem Interpreter.attribution_of_step_twoPagesTorn :
    let i := (Interpreter.start twoPagesTorn NoFonts.mk ({} : PageCollector)).steps 7
    i.step.1 = .error (.truncated ⟨91, 4, 1⟩ (some 137)) ∧ i.step.2.machine.cursor.pos = 91 ∧
      ∃ c, i.machine.ReadsOpcode ⟨86, 137⟩ i.step.2.machine ∧ u8 i.machine.cursor = .ok 137 c ∧
        (Command.readRule .put).FallsShort c ⟨91, 4, 1⟩ i.step.2.machine.cursor := by
  intro i
  have herr : i.step.1 = .error (.truncated ⟨91, 4, 1⟩ (some 137)) := by decide +kernel
  have hpos : i.machine.cursor.pos = 86 := by decide +kernel
  clear_value i
  obtain ⟨s, opcode, he, hoffset, -, -, ⟨_, hnone, _⟩ | ⟨site, c, opened, hopcode, read, short⟩⟩ | ⟨site, _, hsite, _⟩ :=
    attribution_of_step (i := i) (j := i.step.2) (Prod.ext herr rfl)
  · cases he
    cases hnone
  · cases he
    obtain ⟨offset, byte⟩ := site
    obtain rfl : byte = 137 := (Option.some.inj hopcode).symm
    obtain rfl : offset = 86 := opened.offset.trans hpos
    exact ⟨herr, hoffset.symm, c, opened, read, short⟩
  · cases hsite

end Dvi
