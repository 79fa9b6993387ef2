import Dvi.Proofs.Machine.Runs
import Dvi.Proofs.Tables

/-!
# Fonts that were defined

A font stays as it was first defined, and nothing but a font definition touches the fonts.

* `Machine.contains_defineFont`: which fonts there are after a definition;
* `Machine.Does.fonts_eq`: other commands leave the fonts alone;
* `Machine.KeepsFonts`: the fonts of one machine are fonts of another, with the same widths;
* **`Machine.Runs.keepsFonts`**: a run keeps fonts.
-/

namespace Dvi

/-- The font that a command defines. -/
def Command.definition? : Command → Option FontDefinition
  | .defineFont f => some f
  | _ => none

theorem Command.eq_of_definition? {c : Command} {f : FontDefinition} (h : c.definition? = some f) :
    c = .defineFont f := by
  cases c <;> cases h
  rfl

namespace Machine

variable {σ : Type}

section DefineFont

variable [FontSource σ] (m : Machine σ) (f : FontDefinition)

/-- A definition changes nothing but the fonts and their source. -/
theorem defineFont_eq : ∃ source fonts metrics fontMap,
    (m.defineFont f).machine = { m with source, fonts, metrics, fontMap } := by
  unfold defineFont
  split
  · exact ⟨_, _, _, _, rfl⟩
  · exact ⟨_, _, _, _, rfl⟩

theorem phase_defineFont : (m.defineFont f).machine.phase = m.phase := by
  obtain ⟨_, _, _, _, e⟩ := m.defineFont_eq f
  rw [e]

theorem signals_defineFont : (m.defineFont f).signals = [] := by
  unfold defineFont
  split <;> rfl

theorem defineFont_of_contains (h : m.fonts.contains f.id = true) : (m.defineFont f).machine = m := by
  obtain ⟨first, h⟩ := Table.contains_iff.1 h
  unfold defineFont
  rw [h]

theorem fonts_defineFont : (m.defineFont f).machine.fonts =
    if m.fonts.contains f.id then m.fonts else m.fonts.insert f.id f := by
  unfold defineFont
  split
  · rename_i h
    rw [if_pos (Table.contains_iff.2 ⟨_, h⟩)]
  · rename_i h
    rw [if_neg (by simp [Table.contains, h])]

theorem find?_fonts_defineFont (h : m.fonts.find? f.id = none) (id : UInt32) :
    (m.defineFont f).machine.fonts.find? id = if id = f.id then some f else m.fonts.find? id := by
  rw [fonts_defineFont, if_neg (by simp [Table.contains, h]), Table.find?_insert]

theorem find?_metrics_defineFont (h : m.fonts.find? f.id = none) (id : UInt32) :
    (m.defineFont f).machine.metrics.find? id =
      if id = f.id then (FontSource.resolve m.source f).1.metrics.or (m.metrics.find? id) else m.metrics.find? id := by
  unfold defineFont
  rw [h]
  dsimp only
  cases (FontSource.resolve m.source f).1.metrics with
  | none => exact (ite_self _).symm
  | some metrics => exact Table.find?_insert ..

theorem source_defineFont (h : m.fonts.find? f.id = none) :
    (m.defineFont f).machine.source = (FontSource.resolve m.source f).2.2 := by
  unfold defineFont
  rw [h]

theorem contains_defineFont (id : UInt32) : (m.defineFont f).machine.fonts.contains id = true ↔
    m.fonts.contains id = true ∨ id = f.id := by
  rw [fonts_defineFont]
  split
  · rename_i h
    exact ⟨.inl, fun hid => hid.elim (fun h => h) fun e => e ▸ h⟩
  · exact Table.contains_insert

end DefineFont

variable [FontSource σ]

theorem fonts_of_execute {m : Machine σ} {site : Site} {c : Command} {e : Effect σ}
    (h : m.execute site c = .ok e) : (∃ f, c = .defineFont f ∧ e = m.defineFont f) ∨
      e.machine.fonts = m.fonts ∧ e.machine.metrics = m.metrics ∧ e.machine.source = m.source := by
  cases execute_eq_ok_iff.1 h with
  | @defineFont f => exact .inl ⟨f, rfl, rfl⟩
  | _ => exact .inr ⟨rfl, rfl, rfl⟩

theorem Does.fonts_eq {m m' : Machine σ} {x : Executed} (hx : m.Does x m') (hc : x.command.definition? = none) :
    m'.fonts = m.fonts ∧ m'.metrics = m.metrics ∧ m'.source = m.source := by
  obtain ⟨f, hf, _⟩ | h := fonts_of_execute hx.executed
  · rw [hf] at hc
    cases hc
  · exact h

theorem Does.eq_defineFont {m m' : Machine σ} {x : Executed} (hx : m.Does x m') {f : FontDefinition}
    (hc : x.command.definition? = some f) : m' = ((m.reading m'.cursor x.site).defineFont f).machine := by
  have he := hx.executed
  rw [Command.eq_of_definition? hc] at he
  exact (congrArg Effect.machine (Except.ok.inj he)).symm

theorem Does.fonts_of_definition? {m m' : Machine σ} {x : Executed} (hx : m.Does x m') {f : FontDefinition}
    (hc : x.command.definition? = some f) :
    m'.fonts = if m.fonts.contains f.id then m.fonts else m.fonts.insert f.id f := by
  rw [hx.eq_defineFont hc, fonts_defineFont]
  rfl

/-! ## Fonts are kept -/

omit [FontSource σ] in
/-- The fonts of `m` are fonts of `m'`, with the same widths. -/
def KeepsFonts (m m' : Machine σ) : Prop :=
  ∀ id, m.fonts.contains id = true →
    m'.fonts.contains id = true ∧ ∀ code, m'.charWidth id code = m.charWidth id code

namespace KeepsFonts

omit [FontSource σ] in
theorem of_eq {m m' : Machine σ} (hf : m'.fonts = m.fonts) (hm : m'.metrics = m.metrics) :
    m.KeepsFonts m' := by
  intro id h
  refine ⟨by rwa [hf], fun code => ?_⟩
  simp only [charWidth, hf, hm]

omit [FontSource σ] in
theorem refl (m : Machine σ) : m.KeepsFonts m := of_eq rfl rfl

omit [FontSource σ] in
theorem trans {m₁ m₂ m₃ : Machine σ} (h : m₁.KeepsFonts m₂) (h' : m₂.KeepsFonts m₃) :
    m₁.KeepsFonts m₃ := by
  intro id hid
  obtain ⟨h₂, w₂⟩ := h id hid
  obtain ⟨h₃, w₃⟩ := h' id h₂
  exact ⟨h₃, fun code => (w₃ code).trans (w₂ code)⟩

theorem defineFont (m : Machine σ) (f : FontDefinition) : m.KeepsFonts (m.defineFont f).machine := by
  intro id hid
  refine ⟨(m.contains_defineFont f id).2 (.inl hid), fun code => ?_⟩
  by_cases h : m.fonts.contains f.id = true
  · rw [m.defineFont_of_contains f h]
  · have hne : id ≠ f.id := fun e => h (e ▸ hid)
    have hn : m.fonts.find? f.id = none := by simpa [Table.contains] using h
    simp only [charWidth, m.find?_fonts_defineFont f hn, m.find?_metrics_defineFont f hn, if_neg hne]

end KeepsFonts

theorem keepsFonts_of_execute {m : Machine σ} {site : Site} {c : Command} {e : Effect σ}
    (h : m.execute site c = .ok e) : m.KeepsFonts e.machine := by
  obtain ⟨f, _, rfl⟩ | ⟨hf, hw, _⟩ := fonts_of_execute h
  · exact .defineFont m f
  · exact .of_eq hf hw

theorem Does.keepsFonts {m m' : Machine σ} {x : Executed} (h : m.Does x m') : m.KeepsFonts m' := by
  have hm : m.KeepsFonts (m.reading m'.cursor x.site) := .of_eq rfl rfl
  exact hm.trans (keepsFonts_of_execute h.executed)

/-- **A run keeps fonts and their widths.** -/
theorem Runs.keepsFonts {m m' : Machine σ} {h : List Executed} (hr : m.Runs h m') : m.KeepsFonts m' := by
  induction hr with
  | nil => exact .refl m
  | snoc _ hx ih => exact ih.trans hx.keepsFonts

end Machine

end Dvi
