import Dvi.Proofs.Machine.Provided
import Dvi.Proofs.Page.Exact

/-!
# Positions on pages

The registers of a machine are the unbounded ones in 32 bits, whatever is pushed, popped or wraps. How wide a character
is follows from the definition of its font and from the metrics that the source gave for it.

* `pageCommands`: the commands on a page, as they stand in the stream;
* `Exact.Fonts.ofMetrics`: the widths in some metrics, at the sizes of the fonts;
* `Machine.Agrees`: the registers, the font and the stack of a machine are those of an exact state in 32 bits;
* **`Machine.Agrees.execute`**: a command keeps them so, and draws what it should; `Machine.Agrees.execute_eq_none`:
  a command that fails has no meaning;
* **`Machine.Draws.lays`**: what is drawn on a page is what its commands lay out;
* **`events_eq_layout`**: the same of all pages that are read, from the front or by themselves.
-/

namespace Dvi

open Exact

/-- The commands from a position up to what ends a page, cannot be read or may not stand there. -/
def Cursor.pageCommands (c : Cursor) : List Command :=
  match _h : c.command? with
  | some (_, command, c') => if command.isOnPage then command :: c'.pageCommands else []
  | none => []
termination_by c.remaining
decreasing_by exact Cursor.remaining_lt_of_command? _h

/-- The commands on the page that begins at an offset. -/
def pageCommands (data : ByteArray) (offset : Nat) : List Command :=
  match (Cursor.start data).seek offset with
  | none => []
  | some c =>
    match c.command? with
    | some (_, .beginPage .., c') => c'.pageCommands
    | _ => []

theorem Cursor.pageCommands_cons {c c' : Cursor} {site : Site} {command : Command}
    (h : c.command? = some (site, command, c')) (hc : command.isOnPage = true) :
    c.pageCommands = command :: c'.pageCommands := by
  rw [pageCommands]
  split
  · rename_i h'
    rw [h] at h'
    cases h'
    rw [if_pos hc]
  · rename_i h'
    rw [h] at h'
    cases h'

theorem Cursor.pageCommands_nil {c c' : Cursor} {site : Site} {command : Command}
    (h : c.command? = some (site, command, c')) (hc : command.isOnPage = false) : c.pageCommands = [] := by
  rw [pageCommands]
  split
  · rename_i h'
    rw [h] at h'
    cases h'
    rw [hc]
    rfl
  · rfl

/-- The widths in the metrics of fonts, at the sizes at which the fonts are defined. -/
def Exact.Fonts.ofMetrics (fonts : Table UInt32 FontDefinition) (metrics : UInt32 → Option Metrics) : Fonts :=
  fun id => (fonts.find? id).map fun f code => do
    let m ← metrics id
    let width ← m.width? code
    return scaleFixWord f.scale width

namespace Machine

variable {σ : Type}

/-- The fonts of a machine, with the widths in their metrics. -/
def fontWidths (m : Machine σ) : Fonts := .ofMetrics m.fonts m.metrics.find?

theorem isSome_fontWidths (m : Machine σ) (id : UInt32) : (m.fontWidths id).isSome = m.fonts.contains id :=
  Option.isSome_map

theorem fontWidths_of_contains {m : Machine σ} {id : UInt32} (h : m.fonts.contains id = true) :
    m.fontWidths id = some (m.charWidth id) := by
  obtain ⟨f, hf⟩ := Table.contains_iff.1 h
  rw [fontWidths, Fonts.ofMetrics, hf, Option.map_some]
  refine congrArg some (funext fun code => ?_)
  rw [charWidth, hf]
  cases m.metrics.find? id with
  | none => rfl
  | some metrics => exact (Option.map_eq_bind ..).symm

theorem KeepsFonts.fontWidths {m m' : Machine σ} (h : m.KeepsFonts m') (id : UInt32)
    (widths : UInt32 → Option Int32) (hw : m.fontWidths id = some widths) : m'.fontWidths id = some widths := by
  have hid : m.fonts.contains id = true := by rw [← m.isSome_fontWidths, hw, Option.isSome_some]
  obtain ⟨hid', hcode⟩ := h id hid
  rw [fontWidths_of_contains hid']
  rw [fontWidths_of_contains hid] at hw
  rw [← hw]
  exact congrArg some (funext hcode)

/-- The machine is in an exact state, in 32 bits. -/
structure Agrees (m : Machine σ) (s : State) : Prop where
  registers : m.graphics.registers = s.registers.reduce
  font : m.graphics.font = s.font
  stack : m.graphics.stack = s.stack.map Exact.Registers.reduce
  defined : ∀ id, s.font = some id → m.fonts.contains id = true

namespace Agrees

variable {m m' : Machine σ} {s s' : State}

theorem moveRight (h : m.Agrees s) {d : Int32} (hf : m'.fonts = m.fonts)
    (hg : m'.graphics = m.graphics.moveRight d) :
    m'.Agrees { s with registers := { s.registers with h := s.registers.h + d.toInt } } where
  registers := by
    rw [hg, Graphics.moveRight, h.registers]
    simp only [Registers.moveRight, Exact.Registers.reduce, Int32.ofInt_add, Int32.ofInt_toInt]
  font := by
    rw [hg]
    exact h.font
  stack := by
    rw [hg]
    exact h.stack
  defined := by
    rw [hf]
    exact h.defined

theorem advance (h : m.Agrees s) (placement : Placement) {d : Int32} (hf : m'.fonts = m.fonts)
    (hg : m'.graphics = m.graphics.moveRight (match placement with
      | .set => d
      | .put => 0)) : m'.Agrees (s.advance placement d.toInt) := by
  cases placement with
  | set => exact h.moveRight hf hg
  | put =>
    have := h.moveRight hf hg
    rwa [Int32.toInt_zero, Int.add_zero] at this

variable [FontSource σ] {site : Site} {c : Command}

/-- **A command that is executed draws what it should and leads to the state that it should.** -/
theorem execute {e : Effect σ} (h : m.Agrees s) (hc : c.isOnPage = true) (he : m.execute site c = .ok e) :
    ∃ s' marks, s.execute m.fontWidths c = some (s', marks) ∧ e.machine.Agrees s' ∧
      e.signals = (marks.map Mark.reduce).map .event := by
  cases c with
  | typeset placement code =>
    simp only [Machine.execute, typeset] at he
    split at he
    · cases he
    rename_i font hfont
    cases he
    rw [h.font] at hfont
    have hw := fontWidths_of_contains (h.defined font hfont)
    have hd : (m.charWidth font code).elim 0 Int32.toInt = ((m.charWidth font code).getD 0).toInt := by
      cases m.charWidth font code <;> rfl
    refine ⟨_, _, by simp only [State.execute, hfont, hw, Option.bind_eq_bind, Option.bind_some]; rfl, ?_, ?_⟩
    · rw [hd]
      exact h.advance placement rfl rfl
    · simp only [h.registers, List.map_cons, List.map_nil]
      rfl
  | rule placement height width =>
    cases he
    refine ⟨_, _, rfl, h.advance placement rfl rfl, ?_⟩
    simp only [h.registers, List.map_cons, List.map_nil, drawRule]
    rfl
  | nop =>
    cases he
    exact ⟨s, [], rfl, h, rfl⟩
  | push =>
    cases he
    refine ⟨_, [], rfl, ⟨h.registers, h.font, ?_, h.defined⟩, rfl⟩
    simp only [Graphics.push, h.registers, h.stack, List.map_cons]
  | pop =>
    simp only [Machine.execute] at he
    split at he
    · rename_i g hg
      cases he
      have hstack := h.stack
      unfold Graphics.pop at hg
      split at hg
      · cases hg
      · rename_i r rest hr
        cases hg
        rcases hs : s.stack with _ | ⟨t, ts⟩
        · rw [hs, hr] at hstack
          cases hstack
        · rw [hs, hr, List.map_cons, List.cons.injEq] at hstack
          refine ⟨{ s with registers := t, stack := ts }, [], by simp only [State.execute, hs], ?_, rfl⟩
          exact ⟨hstack.1, h.font, hstack.2, h.defined⟩
    · cases he
  | right d =>
    cases he
    exact ⟨_, [], rfl, h.moveRight rfl rfl, rfl⟩
  | down d =>
    cases he
    refine ⟨_, [], rfl, ⟨?_, h.font, h.stack, h.defined⟩, rfl⟩
    simp only [Graphics.moveDown, Registers.moveDown, h.registers, Exact.Registers.reduce, Int32.ofInt_add,
      Int32.ofInt_toInt]
  | move reg d =>
    cases he
    cases d with
    | none =>
      refine ⟨_, [], rfl, ⟨?_, h.font, h.stack, h.defined⟩, rfl⟩
      simp only [Graphics.move, h.registers, Exact.Registers.reduce_moveBy]
    | some d =>
      refine ⟨_, [], rfl, ⟨?_, h.font, h.stack, h.defined⟩, rfl⟩
      simp only [Graphics.move, h.registers, Exact.Registers.reduce_moveBy, Exact.Registers.reduce_store]
  | selectFont id =>
    simp only [Machine.execute] at he
    split at he
    · rename_i hid
      cases he
      refine ⟨{ s with font := some id }, [.fontSelect id], ?_, ⟨h.registers, rfl, h.stack, ?_⟩, rfl⟩
      · rw [State.execute, fontWidths_of_contains hid]
        rfl
      · rintro _ ⟨⟩
        exact hid
    · cases he
  | special payload =>
    cases he
    refine ⟨_, _, rfl, h, ?_⟩
    simp only [h.registers, List.map_cons, List.map_nil]
    rfl
  | defineFont f =>
    cases he
    refine ⟨s, [], rfl, ?_, m.signals_defineFont f⟩
    obtain ⟨source, fonts, metrics, fontMap, e⟩ := m.defineFont_eq f
    have hg : (m.defineFont f).machine.graphics = m.graphics := by rw [e]
    refine ⟨hg ▸ h.registers, hg ▸ h.font, hg ▸ h.stack, fun id hid => ?_⟩
    exact (m.contains_defineFont f id).2 (.inl (h.defined id hid))
  | _ => cases hc

theorem execute_eq_none {err : Error} (h : m.Agrees s) (he : m.execute site c = .error err) :
    s.execute m.fontWidths c = none := by
  cases c with
  | typeset placement code =>
    simp only [Machine.execute, typeset] at he
    split at he
    · rename_i hfont
      rw [h.font] at hfont
      simp only [State.execute, hfont, Option.bind_eq_bind, Option.bind_none]
    · cases he
  | pop =>
    simp only [Machine.execute] at he
    split at he
    · cases he
    · rename_i hg
      rw [Graphics.pop_eq_none_iff, m.graphics.depth_eq, List.length_eq_zero_iff, h.stack, List.map_eq_nil_iff] at hg
      simp only [State.execute, hg]
  | selectFont id =>
    simp only [Machine.execute] at he
    split at he
    · cases he
    · rename_i hid
      rw [State.execute, isSome_fontWidths, if_neg hid]
  | rule | nop | push | right | down | move | special | defineFont => cases he
  | _ => rfl

end Agrees

/-! ## Pages -/

variable [FontSource σ]

/-- **What is drawn on a page is what its commands lay out**, up to where the machine is. -/
theorem Draws.lays {b m : Machine σ} {p : Page} (h : b.Draws p m) : ∃ cs s marks,
    Dvi.pageCommands b.cursor.data p.offset = cs ++ m.cursor.pageCommands ∧
    State.Lays m.fontWidths {} cs s marks ∧ m.Agrees s ∧ p.events.toList = marks.map Mark.reduce := by
  induction h with
  | @begin x counts back m hx hc =>
    have hread := hx.read
    have hexec := hx.executed
    rw [hc] at hread hexec
    have hg : m.graphics = .blank := (congrArg (fun e : Effect σ => e.machine.graphics) (Except.ok.inj hexec)).symm
    refine ⟨[], {}, [], ?_, .nil, ⟨by rw [hg]; rfl, by rw [hg]; rfl, by rw [hg]; rfl, nofun⟩, rfl⟩
    simp only [Dvi.pageCommands, hx.offset, Cursor.seek_pos, Cursor.start, hread, List.nil_append]
  | @more p x events m₁ m₂ hd hx hc hs ih =>
    obtain ⟨cs, s, marks, hcs, hlays, hagrees, hevents⟩ := ih
    have hm : (m₁.reading m₂.cursor x.site).Agrees s := ⟨hagrees.1, hagrees.2, hagrees.3, hagrees.4⟩
    obtain ⟨s', marks', hs', hagrees', hsignals⟩ := hm.execute hc hx.executed
    refine ⟨cs ++ [x.command], s', marks ++ marks', ?_, (hlays.snoc hs').mono hx.keepsFonts.fontWidths, hagrees', ?_⟩
    · rw [List.append_assoc, List.singleton_append, ← Cursor.pageCommands_cons hx.read hc]
      exact hcs
    · have he : events = marks'.map Mark.reduce :=
        (List.map_inj_right fun _ _ e => Signal.event.inj e).1 (hs.symm.trans hsignals)
      simp [Page.draw, hevents, he]

/-- A page that ended is laid out in full, with any fonts among which those of the machine are. -/
theorem Draws.layout_of_endPage {b m m' m'' : Machine σ} {p : Page} {x : Executed} (h : b.Draws p m)
    (hx : m.Does x m') (hc : x.command = .endPage) (hk : m.KeepsFonts m'') :
    p.events.toList = (layout m''.fontWidths {} (Dvi.pageCommands b.cursor.data p.offset)).map Mark.reduce := by
  obtain ⟨cs, s, marks, hcs, hlays, _, hevents⟩ := h.lays
  rw [hcs, Cursor.pageCommands_nil hx.read (by rw [hc]; rfl), (hlays.mono hk.fontWidths).layout_append, hevents]
  simp [layout]

theorem HasDrawn.layout {m m' : Machine σ} {p : Page} (h : m.HasDrawn p) (hk : m.KeepsFonts m') :
    p.events.toList = (layout m'.fontWidths {} (Dvi.pageCommands m.cursor.data p.offset)).map Mark.reduce := by
  obtain ⟨b, m₁, m₂, x, l, hb, hx, hc, hr⟩ := h
  rw [hr.data, hx.data, hb.data]
  exact hb.layout_of_endPage hx hc ((hx.keepsFonts.trans hr.keepsFonts).trans hk)

theorem Draws.layout_of_failure {b m : Machine σ} {p : Page} {err : Error} {e : Effect σ} (h : b.Draws p m)
    (hs : m.step = (.error err, e)) :
    p.events.toList =
      (layout e.machine.fontWidths {} (Dvi.pageCommands b.cursor.data p.offset)).map Mark.reduce := by
  obtain ⟨cs, s, marks, hcs, hlays, hagrees, hevents⟩ := h.lays
  have hf : e.machine.fontWidths = m.fontWidths := by
    obtain ⟨_, _, c, site, _, he⟩ := of_step_eq_error hs
    rw [he]
    rfl
  -- the command at the cursor, if there is one and it may stand there, has no meaning
  have hstuck : layout m.fontWidths s m.cursor.pageCommands = [] := by
    rcases hc : m.cursor.command? with _ | ⟨site, command, c⟩
    · rw [Cursor.pageCommands]
      split <;> rename_i h' <;> rw [hc] at h' <;> cases h'
      rfl
    by_cases hon : command.isOnPage = true
    · rw [Cursor.pageCommands_cons hc hon, layout]
      have hm : (m.reading c site).Agrees s := ⟨hagrees.1, hagrees.2, hagrees.3, hagrees.4⟩
      rcases hx : (m.reading c site).execute site command with err | e
      · have hnone : s.execute m.fontWidths command = none := hm.execute_eq_none hx
        rw [hnone]
      · have ha : m.phase.allows command = true := by
          rw [h.phase]
          exact Phase.allows_of_isOnPage hon
        exact absurd (does_of_execute hc ha hx) (not_does_of_step_eq_error hs)
    · rw [Cursor.pageCommands_nil hc (by simpa using hon), layout]
  rw [hf, hcs, hlays.layout_append, hstuck, hevents, List.append_nil]

end Machine

section Pages

variable {σ : Type} [FontSource σ]

theorem layout_of_interpretPartial (data : ByteArray) (source : σ) {p : Page}
    (hp : p ∈ (interpretPartial data source).document.pages) :
    p.events.toList = (layout (interpretPartial data source).interpreter.machine.fontWidths {}
      (pageCommands data p.offset)).map Mark.reduce := by
  obtain ⟨h, m, hr, hend⟩ := exists_interpretPartial data source
  have hcollects := hr.collects
  have hdata : m.cursor.data = data := hr.data
  obtain ⟨hm, he⟩ | ⟨err, e, hs, he⟩ := hend
  · rw [he] at hp ⊢
    rw [← hdata]
    obtain hp | hp := List.mem_append.1 hp
    · exact (hcollects.closed p (List.mem_reverse.1 hp)).layout (.refl m)
    · rw [Option.mem_toList] at hp
      obtain ⟨b, hb⟩ := hcollects.current p hp
      rw [hb.phase] at hm
      cases hm
  · rw [he] at hp ⊢
    rw [← hdata]
    obtain hp | hp := List.mem_append.1 hp
    · refine (hcollects.closed p (List.mem_reverse.1 hp)).layout ?_
      obtain ⟨_, _, c, site, _, hm⟩ := Machine.of_step_eq_error hs
      rw [hm]
      exact .of_eq rfl rfl
    · rw [Option.mem_toList] at hp
      obtain ⟨b, hb⟩ := hcollects.current p hp
      rw [hb.data]
      exact hb.layout_of_failure hs

theorem Interpreter.layout_of_interpretPage (i : Interpreter σ PageCollector) (offset : Nat) {p : Page}
    (hp : p ∈ (i.interpretPage offset).2.document.pages) :
    p ∈ i.document.pages ∨ p.offset = offset ∧
      p.events.toList = (layout (i.interpretPage offset).2.machine.fontWidths {}
        (pageCommands i.machine.cursor.data offset)).map Mark.reduce := by
  obtain hp | ⟨b, m, hm, rfl, hdata, hend⟩ := i.exists_draws_of_interpretPage offset hp
  · exact .inl hp
  refine .inr ⟨rfl, ?_⟩
  rw [← hdata]
  obtain ⟨x, hx, hc⟩ | ⟨err, e, hs, he⟩ := hend
  · exact hm.layout_of_endPage hx hc hx.keepsFonts
  · rw [he]
    exact hm.layout_of_failure hs

end Pages

/-- **The events on a page are those that its commands lay out with unbounded positions, in 32 bits**, where characters
are as wide as the metrics of their font say at its size: those that the source gives for the fonts, one after the
other. The pages are those that are read from the front, to the end of the stream or to an error, and those that are
read by themselves, for which the fonts and metrics that were there before count, too. -/
theorem events_eq_layout {σ : Type} [FontSource σ] :
    (∀ (data : ByteArray) (source : σ),
      let d := (interpretPartial data source).document
      ∀ p ∈ d.pages, p.events.toList =
        (layout (.ofMetrics d.fonts (metricsOf source d.fonts.values)) {} (pageCommands data p.offset)).map
          Mark.reduce) ∧
    ∀ (i : Interpreter σ PageCollector) (offset : Nat),
      let d := (i.interpretPage offset).2.document
      ∃ new, d.fonts.values = i.machine.fonts.values ++ new ∧
        ∀ p ∈ d.pages, p ∈ i.document.pages ∨ p.offset = offset ∧ p.events.toList =
          (layout (.ofMetrics d.fonts fun id => (metricsOf i.machine.source new id).or (i.machine.metrics.find? id)) {}
            (pageCommands i.machine.cursor.data offset)).map Mark.reduce := by
  refine ⟨fun data source p hp => ?_, fun i offset => ?_⟩
  · obtain ⟨new, h⟩ := Interpreter.provided_interpretPartial data source
    obtain rfl : (interpretPartial data source).document.fonts.values = new := h.fonts
    have hmetrics : (interpretPartial data source).interpreter.machine.metrics.find? =
        metricsOf source (interpretPartial data source).document.fonts.values :=
      funext fun id => (h.metrics id).trans (Option.or_none ..)
    rw [← hmetrics]
    exact layout_of_interpretPartial data source hp
  · obtain ⟨new, h⟩ := i.provided_interpretPage offset
    refine ⟨new, h.fonts, fun p hp => ?_⟩
    rw [← funext h.metrics]
    exact i.layout_of_interpretPage offset hp

/-- The letter is as wide as its font is large. The exact position of the rule is that much more than `2 ^ 31`, so it
stands on the other end of the page. -/
theorem events_eq_layout_twoPages :
    let front := (interpretPartial twoPages letterA).document
    let i := Interpreter.start twoPages letterA ({} : PageCollector)
    let alone := (i.interpretPage 32).2.document
    front.pages.map (·.events.toList) =
      [[.fontSelect 0, .char .set 0 0 0 65 (some 655360), .rule .put (-2146828288) 0 1 1], []] ∧
    alone.pages.map (·.events.toList) =
      [[.fontSelect 0, .char .set 0 0 0 65 (some 655360), .rule .put (-2146828288) 0 1 1]] ∧
    (∀ p ∈ front.pages, p.events.toList =
      (layout (.ofMetrics front.fonts (metricsOf letterA front.fonts.values)) {} (pageCommands twoPages p.offset)).map
        Mark.reduce) ∧
    ∃ new, alone.fonts.values = i.machine.fonts.values ++ new ∧
      ∀ p ∈ alone.pages, p ∈ i.document.pages ∨ p.offset = 32 ∧ p.events.toList =
        (layout (.ofMetrics alone.fonts fun id => (metricsOf letterA new id).or (i.machine.metrics.find? id)) {}
          (pageCommands twoPages 32)).map Mark.reduce :=
  ⟨by decide +kernel, by decide +kernel, events_eq_layout.1 twoPages letterA,
    events_eq_layout.2 (.start twoPages letterA {}) 32⟩

end Dvi
