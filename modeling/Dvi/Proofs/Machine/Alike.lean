import Dvi.Proofs.Machine.Drawing
import Dvi.Proofs.Machine.Failures
import Dvi.Proofs.Machine.Resolved

/-!
# Machines that cannot be told apart

What a machine does depends on its phase, its fonts and, on a page, its registers; all the rest is only kept for
later. Bytes behind those that a step reads do not count either.

* `AnswersAlike`: sources of fonts that give the same answers to the same questions;
* `Cursor.Extends`: a cursor in the same place of a longer stream;
* `Machine.SameFonts`: machines with the same fonts;
* `Machine.Alike`: machines that differ in nothing that counts. **`Machine.Alike.execute`**: a command does the
  same to them;
* **`Machine.Alike.does`**, **`Machine.Alike.fails`**: so does the next step;
* **`Machine.Alike.draws`**: they draw the same pages.
-/

namespace Dvi

open Read

/-! ## Sources -/

section Sources

variable {σ : Type} [FontSource σ]

/-- The source after it was asked for some fonts. -/
def askAll (source : σ) (fonts : List FontDefinition) : σ :=
  fonts.foldl (fun s f => (FontSource.resolve s f).2.2) source

/-- Two sources that give the same answers, whatever they were asked before. -/
def AnswersAlike (s s' : σ) : Prop :=
  ∀ fonts f, (FontSource.resolve (askAll s fonts) f).1 = (FontSource.resolve (askAll s' fonts) f).1

namespace AnswersAlike

theorem refl (s : σ) : AnswersAlike s s := fun _ _ => rfl

theorem symm {s s' : σ} (h : AnswersAlike s s') : AnswersAlike s' s := fun fonts f => (h fonts f).symm

theorem trans {s₁ s₂ s₃ : σ} (h : AnswersAlike s₁ s₂) (h' : AnswersAlike s₂ s₃) : AnswersAlike s₁ s₃ :=
  fun fonts f => (h fonts f).trans (h' fonts f)

theorem answer {s s' : σ} (h : AnswersAlike s s') (f : FontDefinition) :
    (FontSource.resolve s f).1 = (FontSource.resolve s' f).1 := h [] f

theorem ask {s s' : σ} (h : AnswersAlike s s') (f : FontDefinition) :
    AnswersAlike (FontSource.resolve s f).2.2 (FontSource.resolve s' f).2.2 :=
  fun fonts g => h (f :: fonts) g

end AnswersAlike

theorem asked_askAll (source : σ) (fonts : List FontDefinition) : Asked source (askAll source fonts) := by
  induction fonts generalizing source with
  | nil => exact .nil
  | cons f fs ih => exact (ih _).cons

theorem AnswersByName.alike {s s' : σ} {answer : String → ResolvedFont} (h : AnswersByName s answer)
    (h' : AnswersByName s' answer) : AnswersAlike s s' := by
  intro fonts f
  rw [h _ (asked_askAll s fonts), h' _ (asked_askAll s' fonts)]

end Sources

/-! ## Longer streams -/

namespace Cursor

/-- `d` stands where `c` does, in a stream that may go on where that of `c` ends. -/
structure Extends (c d : Cursor) : Prop where
  pos : d.pos = c.pos
  rest : c.rest <+: d.rest

namespace Extends

variable {c c' d : Cursor}

theorem refl (c : Cursor) : c.Extends c := ⟨rfl, List.prefix_rfl⟩

theorem start {p d : ByteArray} (h : p.data.toList <+: d.data.toList) : (start p).Extends (.start d) := by
  refine ⟨rfl, ?_⟩
  simpa [Cursor.rest, Cursor.start] using h

theorem passes (h : c.Extends d) {bs : List UInt8} (hp : c.Passes bs c') :
    ∃ d', d.Passes bs d' ∧ c'.Extends d' := by
  obtain ⟨tail, ht⟩ := h.rest
  rw [hp.rest, List.append_assoc] at ht
  obtain ⟨d', hd, hrest⟩ := exists_passes ht.symm
  refine ⟨d', hd, ?_, ?_⟩
  · rw [hd.pos, hp.pos, h.pos]
  · exact ⟨tail, hrest.symm⟩

theorem read {α : Type} {r : Read α} [Local r] (h : c.Extends d) {a : α} (hr : r c = .ok a c') :
    ∃ d', r d = .ok a d' ∧ c'.Extends d' := by
  obtain ⟨bs, hp, ht⟩ := Local.takes hr
  obtain ⟨d', hd, he⟩ := h.passes hp
  exact ⟨d', ht hd, he⟩

theorem command? (h : c.Extends d) {site : Site} {command : Command}
    (hc : c.command? = some (site, command, c')) : ∃ d', d.command? = some (site, command, d') ∧ c'.Extends d' := by
  obtain ⟨ho, bs, hp, ht⟩ := command?_eq_some_iff.1 hc
  obtain ⟨d', hd, he⟩ := h.passes hp
  exact ⟨d', command?_eq_some_iff.2 ⟨ho.trans h.pos.symm, bs, hd, h.pos ▸ ht⟩, he⟩

theorem eq (h : c.Extends d) (hd : d.data = c.data) : d = c := eq_of_pos hd h.pos

end Extends

end Cursor

/-! ## Machines -/

/-- The same command in the same place, of which the outside is told the same. -/
structure Executed.Same (x x' : Executed) : Prop where
  site : x'.site = x.site
  command : x'.command = x.command
  signals : x'.signals = x.signals

namespace Machine

variable {σ : Type} [FontSource σ]

/-- `r` has the fonts of `m`. -/
structure SameFonts (m r : Machine σ) : Prop where
  fonts : r.fonts = m.fonts
  metrics : r.metrics = m.metrics
  source : AnswersAlike m.source r.source

namespace SameFonts

variable {m r : Machine σ}

theorem refl (m : Machine σ) : m.SameFonts m := ⟨rfl, rfl, .refl _⟩

theorem symm (h : m.SameFonts r) : r.SameFonts m := ⟨h.fonts.symm, h.metrics.symm, h.source.symm⟩

theorem trans {m₁ m₂ m₃ : Machine σ} (h : m₁.SameFonts m₂) (h' : m₂.SameFonts m₃) : m₁.SameFonts m₃ :=
  ⟨h'.fonts.trans h.fonts, h'.metrics.trans h.metrics, h.source.trans h'.source⟩

theorem charWidth (h : m.SameFonts r) (font code : UInt32) : r.charWidth font code = m.charWidth font code := by
  simp only [Machine.charWidth, h.fonts, h.metrics]

theorem defineFont (h : m.SameFonts r) (f : FontDefinition) :
    (m.defineFont f).machine.SameFonts (r.defineFont f).machine := by
  have hanswer := h.source.answer f
  unfold Machine.defineFont
  rw [h.fonts]
  split
  · exact h
  · dsimp only
    rw [← hanswer, h.metrics]
    exact ⟨rfl, rfl, h.source.ask f⟩

theorem fontMap_defineFont (h : m.SameFonts r) (hmap : r.fontMap = m.fontMap) (f : FontDefinition) :
    (r.defineFont f).machine.fontMap = (m.defineFont f).machine.fontMap := by
  unfold Machine.defineFont
  rw [h.fonts]
  split
  · exact hmap
  · dsimp only
    rw [← h.source.answer f, hmap]

end SameFonts

/-- `r` is in the phase of `m` and has its fonts and, on a page, its registers. -/
structure Alike (m r : Machine σ) : Prop extends SameFonts m r where
  phase : r.phase = m.phase
  graphics : m.phase = .inPage → r.graphics = m.graphics

namespace Alike

variable {m r : Machine σ}

theorem reading (h : m.Alike r) (c d : Cursor) (site : Site) : (m.reading c site).Alike (r.reading d site) :=
  ⟨⟨h.fonts, h.metrics, h.source⟩, h.phase, h.graphics⟩

theorem defineFont (h : m.Alike r) (f : FontDefinition) :
    (m.defineFont f).machine.Alike (r.defineFont f).machine := by
  refine ⟨h.toSameFonts.defineFont f, ?_, ?_⟩
  · rw [phase_defineFont, phase_defineFont, h.phase]
  · obtain ⟨_, _, _, _, hm⟩ := m.defineFont_eq f
    obtain ⟨_, _, _, _, hr⟩ := r.defineFont_eq f
    rw [hm, hr]
    exact h.graphics

omit [FontSource σ] in
theorem acceptsId (hid : r.expectedId = m.expectedId) (id : UInt8) : r.acceptsId id = m.acceptsId id := by
  simp only [Machine.acceptsId, hid]

/-- A command is executed on both machines, which are alike afterwards, or fails with the same error. -/
inductive SameOutcome : Except Error (Effect σ) → Except Error (Effect σ) → Prop
  | ok {e e' : Effect σ} (alike : e.machine.Alike e'.machine) (signals : e'.signals = e.signals) :
    SameOutcome (.ok e) (.ok e')
  | error (err : Error) : SameOutcome (.error err) (.error err)

/-- **A command does the same to machines that are alike.** -/
theorem execute (h : m.Alike r) (site : Site) {c : Command} (ha : m.phase.allows c = true)
    (hid : m.phase = .inPostamble → r.expectedId = m.expectedId) :
    SameOutcome (m.execute site c) (r.execute site c) := by
  obtain ⟨⟨hfonts, hmetrics, hsource⟩, hphase, hgraphics⟩ := id h
  have hg : c.draws = true → r.graphics = m.graphics :=
    fun hc => hgraphics (Phase.eq_inPage_of_allows hc ha)
  cases c with
  | typeset placement code =>
    simp only [Machine.execute, typeset, hg rfl, h.toSameFonts.charWidth]
    cases m.graphics.font with
    | none => exact .error _
    | some font => exact .ok ⟨⟨hfonts, hmetrics, hsource⟩, hphase, fun _ => rfl⟩ rfl
  | endPage =>
    have hpage : m.phase = .inPage := by cases hp : m.phase <;> simp [hp, Phase.allows] at ha ⊢
    simp only [Machine.execute, hgraphics hpage]
    split
    · exact .ok ⟨⟨hfonts, hmetrics, hsource⟩, rfl, by simp⟩ rfl
    · exact .error _
  | pop =>
    simp only [Machine.execute, hg rfl]
    cases m.graphics.pop with
    | none => exact .error _
    | some g => exact .ok ⟨⟨hfonts, hmetrics, hsource⟩, hphase, fun _ => rfl⟩ rfl
  | selectFont id =>
    simp only [Machine.execute, hfonts, hg rfl]
    split
    · exact .ok ⟨⟨rfl, hmetrics, hsource⟩, hphase, fun _ => rfl⟩ rfl
    · exact .error _
  | postPostamble pointer id =>
    have hid := hid (by cases hp : m.phase <;> simp [hp, Phase.allows] at ha ⊢)
    simp only [Machine.execute, finish, acceptsId hid, hid]
    split
    · exact .ok ⟨⟨hfonts, hmetrics, hsource⟩, rfl, by simp⟩ rfl
    · exact .error _
  | defineFont f => exact .ok (h.defineFont f) (by rw [signals_defineFont, signals_defineFont])
  | beginPage counts back => exact .ok ⟨⟨hfonts, hmetrics, hsource⟩, rfl, fun _ => rfl⟩ rfl
  | preamble p | postamble p => exact .ok ⟨⟨hfonts, hmetrics, hsource⟩, rfl, by simp⟩ rfl
  | nop => exact .ok h rfl
  | special payload =>
    simp only [Machine.execute, hg rfl]
    exact .ok h rfl
  | undefined => exact .error _
  | rule _ _ _ | push | right _ | down _ | move _ _ =>
    simp only [Machine.execute, drawRule, hg rfl]
    exact .ok ⟨⟨hfonts, hmetrics, hsource⟩, hphase, fun _ => rfl⟩ rfl

/-! ### Steps -/

variable (h : m.Alike r) (hcursor : m.cursor.Extends r.cursor)
  (hid : m.phase = .inPostamble → r.expectedId = m.expectedId)

include h hid

theorem does_of_read {x : Executed} {m' : Machine σ} (hx : m.Does x m') {d : Cursor}
    (hread : r.cursor.command? = some (x.site, x.command, d)) : ∃ x' r', r.Does x' r' ∧ x.Same x' ∧
      m'.Alike r' ∧ r'.cursor = d := by
  have ha := hx.allowed
  have hout := (h.reading m'.cursor d x.site).execute x.site ha hid
  rw [hx.executed] at hout
  generalize he : (r.reading d x.site).execute x.site x.command = out at hout
  cases hout with
  | @ok _ e' halike hsignals =>
    rw [← h.phase] at ha
    exact ⟨_, _, does_of_execute hread ha he, ⟨rfl, rfl, hsignals⟩, halike, cursor_of_execute he⟩

theorem fails_of_read {site : Site} {command : Command} {c d : Cursor} {err : Error}
    (hread : r.cursor.command? = some (site, command, d)) (allowed : m.phase.allows command = true)
    (failed : (m.reading c site).execute site command = .error err) : r.Fails err := by
  have hout := (h.reading c d site).execute site allowed hid
  rw [failed] at hout
  generalize he : (r.reading d site).execute site command = out at hout
  cases hout
  rw [← h.phase] at allowed
  exact .executed hread allowed he

include hcursor

/-- **What one machine does, the other one does.** -/
theorem does {x : Executed} {m' : Machine σ} (hx : m.Does x m') : ∃ x' r', r.Does x' r' ∧ x.Same x' ∧
    m'.Alike r' ∧ m'.cursor.Extends r'.cursor := by
  obtain ⟨d, hread, hd⟩ := hcursor.command? hx.read
  obtain ⟨x', r', hx', hsame, halike, rfl⟩ := h.does_of_read hid hx hread
  exact ⟨x', r', hx', hsame, halike, hd⟩

/-- **What one machine fails of, the other one fails of**, unless it is for want of bytes, of which the other one
may have more. -/
theorem fails {err : Error} (hf : m.Fails err)
    (hs : (∀ s opcode, err ≠ .truncated s opcode) ∨ r.cursor = m.cursor) : r.Fails err := by
  cases hf with
  | @noOpcode s c read =>
    obtain hs | hc := hs
    · exact absurd rfl (hs s none)
    · exact .noOpcode (hc ▸ read)
  | refused read refusal =>
    obtain ⟨d, hread, _⟩ := hcursor.read read
    rw [← h.phase, ← hcursor.pos] at refusal
    exact .refused hread refusal
  | @noOperands byte c c' s read allowed operands =>
    obtain hs | hc := hs
    · exact absurd rfl (hs s (some byte))
    · rw [← h.phase, ← hc] at allowed
      rw [← hc] at read operands
      exact .noOperands read allowed operands
  | executed read allowed failed =>
    obtain ⟨d, hread, _⟩ := hcursor.command? read
    exact h.fails_of_read hid hread allowed failed

omit hcursor hid

/-- **What one machine draws, the other one draws.** -/
theorem draws (hc : r.cursor = m.cursor) {p : Page} {m' : Machine σ} (hd : m.Draws p m') :
    ∃ r', r.Draws p r' ∧ m'.Alike r' ∧ r'.cursor = m'.cursor := by
  have hextends : m.cursor.Extends r.cursor := hc ▸ .refl _
  induction hd with
  | begin hx hcommand =>
    have hm := Phase.eq_betweenPages_of_beginPage (hcommand ▸ hx.allowed)
    obtain ⟨x', r', hx', hsame, halike, hcursor'⟩ := h.does hextends (by simp [hm]) hx
    refine ⟨r', ?_, halike, hcursor'.eq (by rw [hx'.data, hx.data, hc])⟩
    rw [← hsame.site]
    exact .begin hx' (hsame.command.trans hcommand)
  | @more p x events m₁ m₂ hdraws hx hcommand hsignals ih =>
    obtain ⟨r₁, hr, halike₁, hc₁⟩ := ih
    have hm := hdraws.phase
    obtain ⟨x', r₂, hx', hsame, halike, hcursor'⟩ := halike₁.does (hc₁ ▸ .refl _) (by simp [hm]) hx
    refine ⟨r₂, hr.more hx' (by rwa [hsame.command]) (hsame.signals.trans hsignals), halike,
      hcursor'.eq (by rw [hx'.data, hx.data, hc₁])⟩

end Alike

end Machine

end Dvi
