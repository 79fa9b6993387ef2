import Dvi.Proofs.Machine.Runs

/-!
# Steps that fail

A step fails because the bytes end, because the opcode may not stand where it does, or because the command cannot
be executed.

* `Machine.Fails`: a step that fails, with what it fails of;
* **`Machine.step_eq_error_iff`** says that it is one.
-/

namespace Dvi

open Read

namespace Machine

variable {σ : Type} [FontSource σ]

/-- The next step of the machine fails with an error. -/
inductive Fails (m : Machine σ) : Error → Prop
  /-- there is no byte left -/
  | noOpcode {s : Shortfall} {c : Cursor} (read : Read.u8 m.cursor = .error s c) : Fails m (.truncated s none)
  /-- the opcode may not stand in the phase -/
  | refused {byte : UInt8} {c : Cursor} {err : Error} (read : Read.u8 m.cursor = .ok byte c)
    (refusal : m.phase.refusal ⟨m.cursor.pos, byte⟩ (Opcode.ofByte byte) = some err) : Fails m err
  /-- the bytes end inside the operands -/
  | noOperands {byte : UInt8} {c c' : Cursor} {s : Shortfall} (read : Read.u8 m.cursor = .ok byte c)
    (allowed : m.phase.refusal ⟨m.cursor.pos, byte⟩ (Opcode.ofByte byte) = none)
    (operands : (Opcode.ofByte byte).operands m.cursor.pos c = .error s c') : Fails m (.truncated s (some byte))
  /-- the command was read and is not executed -/
  | executed {site : Site} {command : Command} {c : Cursor} {err : Error}
    (read : m.cursor.command? = some (site, command, c)) (allowed : m.phase.allows command = true)
    (failed : (m.reading c site).execute site command = .error err) : Fails m err

/-- **A step fails with an error if and only if the machine fails with it.** -/
theorem step_eq_error_iff {m : Machine σ} (hm : m.phase.isFinal = false) {err : Error} :
    m.step.1 = .error err ↔ m.Fails err := by
  unfold step
  rw [if_neg (by simp [hm])]
  refine ⟨fun h => ?_, fun h => ?_⟩
  · split at h
    · rename_i hb
      cases h
      exact .noOpcode hb
    rename_i byte c hb
    dsimp only at h
    split at h
    · rename_i hr
      cases h
      exact .refused hb hr
    rename_i hr
    split at h
    · rename_i ho
      cases h
      exact .noOperands hb hr ho
    rename_i command c' ho
    split at h
    · rename_i hx
      cases h
      obtain ⟨bs, _, ht⟩ := Local.takes ho
      have hread : m.cursor.command? = some (⟨m.cursor.pos, byte⟩, command, c') := by
        simp only [Cursor.command?, hb, ho]
      exact .executed hread ((Phase.refusal_eq_none_iff hm ht).1 hr) hx
    · cases h
  · cases h with
    | noOpcode hb => simp only [hb]
    | refused hb hr => simp only [hb, hr]
    | noOperands hb hr ho => simp only [hb, hr, ho]
    | @executed site command c _ hread hallowed hexec =>
      obtain ⟨ho, bs, hp, ht⟩ := Cursor.command?_eq_some_iff.1 hread
      obtain ⟨c₁, h₁, h₂⟩ := hp.first
      have hr : m.phase.refusal site (Opcode.ofByte site.opcode) = none :=
        (Phase.refusal_eq_none_iff hm ht).2 hallowed
      obtain ⟨offset, opcode⟩ := site
      subst ho
      simp only [reading] at hexec
      simp only [takes_u8.2 rfl h₁, hr, ht h₂, hexec]

theorem active_of_step_eq_error {m : Machine σ} {err : Error} {e : Effect σ} (h : m.step = (.error err, e)) :
    m.phase.isFinal = false := by
  cases hm : m.phase.isFinal
  · rfl
  · rw [step_of_isFinal hm] at h
    cases h

theorem failed_of_step {m : Machine σ} {err : Error} {e : Effect σ} (h : m.step = (.error err, e)) :
    e.machine.phase = .failed := by
  obtain ⟨_, _, c, site, _, he⟩ := of_step_eq_error h
  rw [he]

theorem exists_step_of_fails {m : Machine σ} (hm : m.phase.isFinal = false) {err : Error} (h : m.Fails err) :
    ∃ e, m.step = (.error err, e) :=
  ⟨m.step.2, Prod.ext ((step_eq_error_iff hm).2 h) rfl⟩

end Machine

end Dvi
