import Dvi.Proofs.Machine.Fonts
import Dvi.Proofs.Stream.Scans

/-!
# Drawing pages

A page that was collected is what its commands drew, between the command that begins it and the one that ends
it.

* `Machine.exists_events_of_execute`, `Machine.Does.signals_cases`: what the outside is told of a command;
* `Machine.Draws`: a machine begins a page and draws on it. A page is drawn until it ends or a step fails
  (**`Machine.draws_cases`**);
* **`Machine.Runs.collects`**: every page of a stream was drawn;
* **`Interpreter.exists_draws_of_interpretPage`**: so was a page that is read by itself.
-/

namespace Dvi

/-- The commands that may stand on a page. -/
def Command.isOnPage : Command → Bool
  | .nop | .defineFont _ => true
  | c => c.draws

theorem Phase.allows_of_isOnPage {c : Command} (h : c.isOnPage = true) : Phase.inPage.allows c = true := by
  cases c <;> first | rfl | cases h

theorem Phase.cases_of_allows {p : Phase} {c : Command} (h : p.allows c = true) :
    (p = .inPage ∧ c.isOnPage = true) ∨ (p = .inPage ∧ c = .endPage) ∨
    (p = .betweenPages ∧ ∃ counts back, c = .beginPage counts back) ∨
    (p ≠ .inPage ∧ p.next c ≠ .inPage ∧ c.draws = false ∧ c ≠ .endPage ∧ ∀ counts back, c ≠ .beginPage counts back) := by
  cases p <;> cases c <;> simp_all [allows, next, Command.isOnPage, Command.draws]

/-- The page with more drawn on it. -/
def Page.draw (p : Page) (events : List Event) : Page := { p with events := p.events ++ events }

namespace Machine

variable {σ : Type} [FontSource σ]

theorem exists_events_of_execute {m : Machine σ} {site : Site} {c : Command} {e : Effect σ}
    (h : m.execute site c = .ok e) (hb : ∀ counts back, c ≠ .beginPage counts back) (he : c ≠ .endPage) :
    ∃ events : List Event, e.signals = events.map .event ∧ (c.draws = false → events = []) := by
  cases execute_eq_ok_iff.1 h with
  | beginPage => exact absurd rfl (hb _ _)
  | endPage => exact absurd rfl he
  | typeset | rule | selectFont | special => exact ⟨[_], rfl, by simp [Command.draws]⟩
  | @defineFont f => exact ⟨[], m.signals_defineFont f, fun _ => rfl⟩
  | _ => exact ⟨[], rfl, fun _ => rfl⟩

theorem Does.data {m m' : Machine σ} {x : Executed} (h : m.Does x m') : m'.cursor.data = m.cursor.data :=
  Cursor.data_of_command? h.read

theorem Does.offset {m m' : Machine σ} {x : Executed} (h : m.Does x m') : x.site.offset = m.cursor.pos :=
  (Cursor.command?_eq_some_iff.1 h.read).1

theorem Runs.data {m m' : Machine σ} {h : List Executed} (hr : m.Runs h m') :
    m'.cursor.data = m.cursor.data := by
  induction hr with
  | nil => rfl
  | snoc _ hx ih => exact hx.data.trans ih

theorem Does.signals_of_beginPage {m m' : Machine σ} {x : Executed} (h : m.Does x m')
    {counts : Vector Int32 10} {back : Int32} (hc : x.command = .beginPage counts back) :
    x.signals = [.beginPage { offset := x.site.offset, counts, backPointer := back }] := by
  have he := h.executed
  rw [hc] at he
  exact (congrArg Effect.signals (Except.ok.inj he)).symm

theorem Does.signals_of_endPage {m m' : Machine σ} {x : Executed} (h : m.Does x m')
    (hc : x.command = .endPage) : x.signals = [.endPage] := by
  have he := h.executed
  rw [hc] at he
  simp only [execute] at he
  split at he
  · exact (congrArg Effect.signals (Except.ok.inj he)).symm
  · cases he

/-! ## Pages -/

/-- `m` begins the page `p` and has drawn what is on it when it is `m'`. -/
inductive Draws (m : Machine σ) : Page → Machine σ → Prop
  | begin {x : Executed} {counts : Vector Int32 10} {back : Int32} {m' : Machine σ} (hx : m.Does x m')
    (hc : x.command = .beginPage counts back) :
    Draws m { offset := x.site.offset, counts, backPointer := back } m'
  | more {p : Page} {x : Executed} {events : List Event} {m₁ m₂ : Machine σ} (h : Draws m p m₁)
    (hx : m₁.Does x m₂) (hc : x.command.isOnPage = true) (he : x.signals = events.map .event) :
    Draws m (p.draw events) m₂

theorem next_of_isOnPage {p : Phase} {c : Command} (h : c.isOnPage = true) : p.next c = p := by
  cases c <;> first | rfl | cases h

/-- A command tells of events on the page under way, ends it, begins one where none is, or tells nothing. -/
theorem Does.signals_cases {m m' : Machine σ} {x : Executed} (hx : m.Does x m') :
    (m.phase = .inPage ∧ m'.phase = .inPage ∧ ∃ events : List Event, x.signals = events.map .event) ∨
    (m.phase = .inPage ∧ m'.phase ≠ .inPage ∧ x.signals = [.endPage]) ∨
    (m.phase ≠ .inPage ∧ m'.phase = .inPage ∧ ∃ p : Page, p.events = #[] ∧ x.signals = [.beginPage p]) ∨
    (m.phase ≠ .inPage ∧ m'.phase ≠ .inPage ∧ x.signals = []) := by
  rw [hx.phase]
  obtain ⟨hp, hc⟩ | ⟨hp, hc⟩ | ⟨hp, counts, back, hc⟩ | ⟨hp, hn, hd, he, hb⟩ := Phase.cases_of_allows hx.allowed
  · obtain ⟨events, hs, -⟩ := exists_events_of_execute hx.executed
      (fun _ _ e => by rw [e] at hc; cases hc) (fun e => by rw [e] at hc; cases hc)
    exact .inl ⟨hp, by rw [next_of_isOnPage hc, hp], events, hs⟩
  · exact .inr (.inl ⟨hp, by rw [hc]; nofun, hx.signals_of_endPage hc⟩)
  · exact .inr (.inr (.inl ⟨by rw [hp]; nofun, by rw [hc]; rfl, _, rfl, hx.signals_of_beginPage hc⟩))
  · obtain ⟨events, hs, hnone⟩ := exists_events_of_execute hx.executed hb he
    rw [hnone hd] at hs
    exact .inr (.inr (.inr ⟨hp, hn, hs⟩))

namespace Draws

variable {m m' : Machine σ} {p : Page}

theorem phase (h : m.Draws p m') : m'.phase = .inPage := by
  induction h with
  | begin hx hc => rw [hx.phase, hc, Phase.next]
  | more _ hx hc _ ih => rw [hx.phase, next_of_isOnPage hc, ih]

theorem offset (h : m.Draws p m') : p.offset = m.cursor.pos := by
  induction h with
  | begin hx hc => exact hx.offset
  | more _ _ _ _ ih => exact ih

theorem data (h : m.Draws p m') : m'.cursor.data = m.cursor.data := by
  induction h with
  | begin hx hc => exact hx.data
  | more _ hx _ _ ih => exact hx.data.trans ih

theorem exists_begin (h : m.Draws p m') : ∃ x counts back m₁, m.Does x m₁ ∧ x.command = .beginPage counts back := by
  induction h with
  | begin hx hc => exact ⟨_, _, _, _, hx, hc⟩
  | more _ _ _ _ ih => exact ih

theorem exists_more {x : Executed} {m₁ m₂ : Machine σ} (h : m.Draws p m₁) (hx : m₁.Does x m₂)
    (hc : x.command.isOnPage = true) :
    ∃ events : List Event, x.signals = events.map .event ∧ m.Draws (p.draw events) m₂ := by
  obtain ⟨events, he, _⟩ := exists_events_of_execute hx.executed
    (fun _ _ e => by rw [e] at hc; cases hc) (fun e => by rw [e] at hc; cases hc)
  exact ⟨events, he, h.more hx hc he⟩

/-- **A page is drawn up to its end, or to where no step succeeds.** -/
theorem exists_last {p : Page} {m₁ : Machine σ} (h : m.Draws p m₁) :
    ∃ p' m', m.Draws p' m' ∧ ∀ x m'', m'.Does x m'' → x.command = .endPage := by
  by_cases hd : ∃ x m₂, m₁.Does x m₂ ∧ x.command.isOnPage = true
  · obtain ⟨x, m₂, hx, hc⟩ := hd
    have hlt : m₂.cursor.remaining < m₁.cursor.remaining := Cursor.remaining_lt_of_command? hx.read
    obtain ⟨events, _, h₂⟩ := h.exists_more hx hc
    exact exists_last h₂
  · refine ⟨p, m₁, h, fun x m₂ hx => ?_⟩
    have ha := hx.allowed
    rw [h.phase] at ha
    obtain ⟨_, hc⟩ | ⟨_, hc⟩ | ⟨hp, _⟩ | ⟨hp, _⟩ := Phase.cases_of_allows ha
    · exact absurd ⟨x, m₂, hx, hc⟩ hd
    · exact hc
    · cases hp
    · exact absurd rfl hp
termination_by m₁.cursor.remaining

end Draws

/-- **Where a page begins, no step succeeds, or a page is drawn** up to its end or to where a step fails. -/
theorem draws_cases (m : Machine σ) (hphase : m.phase = .betweenPages)
    (hbop : Opcode.ofByte (m.cursor.peek.getD 0) = .beginPage) :
    (∃ err e, m.step = (.error err, e)) ∨ ∃ (p : Page) (m₁ : Machine σ), m.Draws p m₁ ∧
      ((∃ x m₂, m₁.Does x m₂ ∧ x.command = .endPage) ∨ ∃ err e, m₁.step = (.error err, e)) := by
  have hfinal : m.phase.isFinal = false := by rw [hphase]; rfl
  rcases hs : m.step with ⟨err | more, e⟩
  · exact .inl ⟨err, e, rfl⟩
  obtain ⟨⟨site, c, hx⟩, _⟩ := (step_eq_ok_iff hfinal).1 hs
  rw [Cursor.peek_of_command? hx.read] at hbop
  obtain ⟨counts, back, rfl⟩ := Cursor.exists_beginPage_of_command? hx.read hbop
  obtain ⟨p, m₁, hdraws, hlast⟩ := (Draws.begin hx rfl).exists_last
  refine .inr ⟨p, m₁, hdraws, ?_⟩
  rcases hs₁ : m₁.step with ⟨err | more, e₁⟩
  · exact .inr ⟨err, e₁, rfl⟩
  · obtain ⟨⟨site', c', hy⟩, _⟩ := (step_eq_ok_iff (by rw [hdraws.phase]; rfl)).1 hs₁
    exact .inl ⟨_, _, hy, hlast _ _ hy⟩

end Machine

/-! ## Pages that are collected -/

namespace PageCollector

theorem foldl_receive_event (c : PageCollector) (p : Page) (hc : c.current = some p) (events : List Event) :
    (events.map Signal.event).foldl Device.receive c = { c with current := some (p.draw events) } := by
  obtain ⟨closed, current⟩ := c
  obtain rfl : current = some p := hc
  induction events generalizing p with
  | nil => simp [Page.draw]
  | cons e es ih =>
    rw [List.map_cons, List.foldl_cons]
    refine (ih { p with events := p.events.push e }).trans ?_
    simp [Page.draw]

end PageCollector

namespace Machine

variable {σ : Type} [FontSource σ]

/-- The page `p` was drawn and ended before the machine was `m`. -/
def HasDrawn (m : Machine σ) (p : Page) : Prop :=
  ∃ (b m₁ m₂ : Machine σ) (x : Executed) (h : List Executed),
    b.Draws p m₁ ∧ m₁.Does x m₂ ∧ x.command = .endPage ∧ m₂.Runs h m

theorem HasDrawn.does {m m' : Machine σ} {p : Page} {x : Executed} (h : m.HasDrawn p) (hx : m.Does x m') :
    m'.HasDrawn p := by
  obtain ⟨b, m₁, m₂, y, l, hb, hy, he, hr⟩ := h
  exact ⟨b, m₁, m₂, y, l ++ [x], hb, hy, he, hr.snoc hx⟩

/-- The pages of `c` were drawn; one that did not end is drawn by a machine that is now `m`. -/
structure Collects (m : Machine σ) (c : PageCollector) : Prop where
  closed : ∀ p ∈ c.closed, m.HasDrawn p
  current : ∀ p, c.current = some p → ∃ b : Machine σ, b.Draws p m
  underway : m.phase = .inPage → ∃ p, c.current = some p

theorem Collects.current_eq_none {m : Machine σ} {c : PageCollector} (h : m.Collects c)
    (hm : m.phase ≠ .inPage) : c.current = none := by
  rcases hc : c.current with _ | p
  · rfl
  · obtain ⟨b, hb⟩ := h.current p hc
    exact absurd hb.phase hm

theorem Collects.receive {m m' : Machine σ} {c : PageCollector} {x : Executed} (h : m.Collects c)
    (hx : m.Does x m') : m'.Collects (x.signals.foldl Device.receive c) := by
  have hclosed : ∀ p ∈ c.closed, m'.HasDrawn p := fun p hp => (h.closed p hp).does hx
  have hphase := hx.phase
  obtain ⟨hp, hc⟩ | ⟨hp, hc⟩ | ⟨hp, counts, back, hc⟩ | ⟨hp, hn, hd, he, hb⟩ := Phase.cases_of_allows hx.allowed
  · obtain ⟨p, hcur⟩ := h.underway hp
    obtain ⟨b, hdraws⟩ := h.current p hcur
    obtain ⟨events, hs, hmore⟩ := hdraws.exists_more hx hc
    rw [hs, c.foldl_receive_event p hcur]
    refine ⟨hclosed, ?_, fun _ => ⟨_, rfl⟩⟩
    rintro _ ⟨⟩
    exact ⟨b, hmore⟩
  · obtain ⟨p, hcur⟩ := h.underway hp
    obtain ⟨b, hdraws⟩ := h.current p hcur
    rw [hx.signals_of_endPage hc]
    obtain ⟨closed, current⟩ := c
    obtain rfl : current = some p := hcur
    refine ⟨?_, nofun, fun e => ?_⟩
    · rintro q (_ | ⟨_, hq⟩)
      · exact ⟨b, m, m', x, [], hdraws, hx, hc, .nil⟩
      · exact hclosed q hq
    · rw [hphase, hc] at e
      cases e
  · rw [hx.signals_of_beginPage hc]
    refine ⟨hclosed, ?_, fun _ => ⟨_, rfl⟩⟩
    rintro _ ⟨⟩
    exact ⟨m, .begin hx hc⟩
  · obtain ⟨events, hs, hn'⟩ := exists_events_of_execute hx.executed hb he
    obtain rfl := hn' hd
    change x.signals = [] at hs
    rw [hs]
    refine ⟨hclosed, fun p hcur => ?_, fun e => ?_⟩
    · rw [List.foldl_nil, h.current_eq_none hp] at hcur
      cases hcur
    · exact absurd (hphase.symm.trans e) hn

/-- **The pages that a run tells of were drawn.** -/
theorem Runs.collects {data : ByteArray} {source : σ} {m : Machine σ} {h : List Executed}
    (hr : (start data source).Runs h m) :
    m.Collects ((h.flatMap Executed.signals).foldl Device.receive ({} : PageCollector)) := by
  induction hr with
  | nil => exact ⟨nofun, nofun, nofun⟩
  | snoc _ hx ih =>
    rw [List.flatMap_append, List.foldl_append, List.flatMap_cons, List.flatMap_nil, List.append_nil]
    exact ih.receive hx

end Machine

/-- A stream of two pages. On the first a character, and a rule after two movements to the right whose sum has more than
32 bits; the second is empty. -/
def twoPages : ByteArray :=
  let counts := List.replicate 40 0
  let font := [243, 0, 0, 0, 0, 0, 0, 10, 0, 0, 0, 10, 0, 0, 0, 1, 97]
  let units := [1, 131, 146, 192, 28, 59, 0, 0, 0, 0, 3, 232]
  let bytes := [247, 2] ++ units ++ [0] ++ font ++
    [139] ++ counts ++ [255, 255, 255, 255] ++
    [171, 65, 146, 127, 255, 255, 255, 143, 1, 137, 0, 0, 0, 1, 0, 0, 0, 1, 140] ++
    [139] ++ counts ++ [0, 0, 0, 32, 140] ++
    [248, 0, 0, 0, 96] ++ units ++ [0, 0, 0, 0, 0, 0, 0, 0, 0, 0, 0, 2] ++ font ++
    [249, 0, 0, 0, 142, 2, 223, 223, 223, 223]
  ⟨bytes.toArray⟩

/-- A source with metrics for the font of the name a, in which the letter A is as wide as the font is large. -/
def letterA : NamedFonts where
  answer name := if name = "a" then
      { metrics := some {
          name, checksum := 0, designSize := 10485760, firstChar := 65
          chars := #[some { width := 1048576, height := 0, depth := 0 }] } }
    else {}

/-! ## Single pages -/

namespace Interpreter

variable {σ : Type} [FontSource σ]

section RunPage

variable {δ : Type} [Device δ] {i j : Interpreter σ δ}

theorem runPage_of_step (h : i.step = (.ok true, j)) :
    i.runPage = if j.machine.phase = .betweenPages then (.ok (), j) else j.runPage := by
  rw [runPage]
  split <;> rename_i e <;> rw [h] at e <;> cases e
  rfl

theorem runPage_of_failure {err : Error} (h : i.step = (.error err, j)) : i.runPage = (.error err, j) := by
  rw [runPage]
  split <;> rename_i e <;> rw [h] at e <;> cases e
  rfl

theorem runPage_of_does {x : Executed} {m : Machine σ} (h : i.machine.Does x m) (hm : m.phase = .inPage) :
    i.runPage = (i.advance [x] m).runPage := by
  have hs := step_of_does h
  rw [hm] at hs
  rw [runPage_of_step hs, if_neg]
  simp [advance, hm]

theorem runPage_of_last_does {x : Executed} {m : Machine σ} (h : i.machine.Does x m)
    (hm : m.phase = .betweenPages) : i.runPage = (.ok (), i.advance [x] m) := by
  have hs := step_of_does h
  rw [hm] at hs
  rw [runPage_of_step hs, if_pos]
  exact hm

end RunPage

variable {i : Interpreter σ PageCollector}

theorem exists_runPage_of_draws {m : Machine σ} {p : Page} (h : i.machine.Draws p m) :
    ∃ log, i.runPage = runPage ⟨m, { i.device with current := some p }, log⟩ := by
  induction h with
  | @begin x counts back m' hx hc =>
    have hm : m'.phase = .inPage := (Machine.Draws.begin hx hc).phase
    refine ⟨i.log ++ x.warnings, ?_⟩
    rw [runPage_of_does hx hm, advance_singleton, hx.signals_of_beginPage hc]
    rfl
  | @more p x events m₁ m₂ hd hx hc hs ih =>
    obtain ⟨log, ih⟩ := ih
    have hm : m₂.phase = .inPage := (hd.more hx hc hs).phase
    refine ⟨log ++ x.warnings, ih.trans ?_⟩
    rw [runPage_of_does hx hm, advance_singleton, hs, PageCollector.foldl_receive_event _ p rfl]

theorem exists_runPage_of_endPage {m m' : Machine σ} {p : Page} {x : Executed} (h : i.machine.Draws p m)
    (hx : m.Does x m') (hc : x.command = .endPage) :
    ∃ log, i.runPage = (.ok (), ⟨m', ⟨p :: i.device.closed, none⟩, log⟩) := by
  obtain ⟨log, hi⟩ := exists_runPage_of_draws h
  have hm : m'.phase = .betweenPages := by
    rw [hx.phase, hc, Phase.next]
  refine ⟨log ++ x.warnings, hi.trans ?_⟩
  rw [runPage_of_last_does hx hm, advance_singleton, hx.signals_of_endPage hc]
  rfl

theorem exists_runPage_of_failure {m : Machine σ} {p : Page} {err : Error} {e : Effect σ}
    (h : i.machine.Draws p m) (hs : m.step = (.error err, e)) :
    ∃ log, i.runPage = (.error err, ⟨e.machine, { i.device with current := some p }, log⟩) := by
  obtain ⟨log, hi⟩ := exists_runPage_of_draws h
  exact ⟨log, hi.trans (runPage_of_failure (step_of_failure hs))⟩

/-! ### Before a page -/

section Setup

variable {δ : Type} [Device δ]

/-- Nothing was drawn, and the bytes are the same. -/
structure Undrawn (i j : Interpreter σ δ) : Prop where
  device : j.device = i.device
  data : j.machine.cursor.data = i.machine.cursor.data

omit [FontSource σ] [Device δ] in
theorem Undrawn.trans {i₁ i₂ i₃ : Interpreter σ δ} (h : i₁.Undrawn i₂) (h' : i₂.Undrawn i₃) : i₁.Undrawn i₃ :=
  ⟨h'.device.trans h.device, h'.data.trans h.data⟩

variable (i : Interpreter σ δ)

theorem undrawn_of_failure {j : Interpreter σ δ} {err : Error} (h : i.step = (.error err, j)) : i.Undrawn j := by
  obtain ⟨e, hs, rfl⟩ := exists_machine_step_of_failure h
  obtain ⟨_, _, c, site, hc, he⟩ := Machine.of_step_eq_error hs
  exact ⟨rfl, by rw [he]; exact hc⟩

theorem undrawn_readPreamble : i.Undrawn i.readPreamble.2 := by
  unfold readPreamble
  split
  · rename_i hp
    split
    · rename_i more j hs
      obtain ⟨x, hx, hj⟩ := exists_does_of_step (by simp [hp, Phase.isFinal]) hs
      obtain ⟨p, hc⟩ := Phase.exists_preamble_of_allows (hp ▸ hx.allowed)
      have he := hx.executed
      rw [hc] at he
      have hsignals : x.signals = [] := (congrArg Effect.signals (Except.ok.inj he)).symm
      refine ⟨?_, hx.data⟩
      rw [hj, advance_singleton, hsignals, List.foldl_nil]
    · rename_i err j hs
      exact i.undrawn_of_failure hs
  · exact ⟨rfl, rfl⟩

theorem undrawn_defineFonts (fonts : List FontDefinition) : i.Undrawn (i.defineFonts fonts) := by
  induction fonts generalizing i with
  | nil => exact ⟨rfl, rfl⟩
  | cons f fs ih =>
    refine Undrawn.trans ⟨?_, ?_⟩ (ih (i.apply (i.machine.defineFont f)))
    · simp only [apply_eq, Machine.signals_defineFont, List.foldl_nil]
    · obtain ⟨_, _, _, _, e⟩ := i.machine.defineFont_eq f
      simp only [apply_eq, e]

theorem undrawn_readTrailer : i.Undrawn i.readTrailer.2 := by
  unfold readTrailer
  split
  · exact ⟨rfl, rfl⟩
  have hw : i.Undrawn (i.warn (Trailer.warnings i.machine.cursor.data)) := ⟨rfl, rfl⟩
  refine hw.trans ?_
  dsimp only
  generalize i.warn (Trailer.warnings i.machine.cursor.data) = j
  have hdata := Trailer.keepsData_locate j.machine.cursor
  unfold Scan.after at hdata
  split <;> rename_i hl <;> rw [hl] at hdata
  · exact ⟨rfl, hdata⟩
  · rename_i t c
    have hd := undrawn_defineFonts { j with machine := { j.machine with cursor := c, randomAccess := true } } t.fonts
    exact ⟨hd.device, hd.data.trans hdata⟩

end Setup

theorem exists_draws_of_runPage (i : Interpreter σ PageCollector) (hphase : i.machine.phase = .betweenPages)
    (hbop : Opcode.ofByte (i.machine.cursor.peek.getD 0) = .beginPage) {p : Page}
    (hp : p ∈ i.runPage.2.device.pages) : p ∈ i.device.pages ∨ ∃ m : Machine σ, i.machine.Draws p m ∧
      ((∃ x, m.Does x i.runPage.2.machine ∧ x.command = .endPage) ∨
        ∃ err e, m.step = (.error err, e) ∧ i.runPage.2.machine = e.machine) := by
  obtain ⟨err, e, hs⟩ | ⟨q, m, hq, hend⟩ := i.machine.draws_cases hphase hbop
  · rw [runPage_of_failure (step_of_failure hs)] at hp
    exact .inl hp
  -- the pages now are those that ended before and the new one, or `i.device.closed` and the new one
  obtain ⟨x, m', hx, hc⟩ | ⟨err, e, hs⟩ := hend
  · obtain ⟨log, hrun⟩ := exists_runPage_of_endPage hq hx hc
    rw [hrun] at hp ⊢
    simp only [PageCollector.pages, List.reverse_cons, Option.toList_none, List.append_nil, List.mem_append,
      List.mem_singleton] at hp
    obtain hp | rfl := hp
    · exact .inl (List.mem_append_left _ hp)
    · exact .inr ⟨m, hq, .inl ⟨x, hx, hc⟩⟩
  · obtain ⟨log, hrun⟩ := exists_runPage_of_failure hq hs
    rw [hrun] at hp ⊢
    obtain hp | hp := List.mem_append.1 hp
    · exact .inl (List.mem_append_left _ hp)
    · obtain rfl : p = q := by simpa using hp
      exact .inr ⟨m, hq, .inr ⟨err, e, hs, rfl⟩⟩

/-- **A page that is read by itself was drawn**, up to its end or to where no step succeeds. -/
theorem exists_draws_of_interpretPage (i : Interpreter σ PageCollector) (offset : Nat) {p : Page}
    (hp : p ∈ (i.interpretPage offset).2.device.pages) :
    p ∈ i.device.pages ∨ ∃ b m : Machine σ, b.Draws p m ∧ p.offset = offset ∧
      b.cursor.data = i.machine.cursor.data ∧
      ((∃ x, m.Does x (i.interpretPage offset).2.machine ∧ x.command = .endPage) ∨
        ∃ err e, m.step = (.error err, e) ∧ (i.interpretPage offset).2.machine = e.machine) := by
  unfold interpretPage at hp ⊢
  have h₁ := i.undrawn_readPreamble
  generalize i.readPreamble = r₁ at h₁ hp ⊢
  obtain ⟨err | _, i₁⟩ := r₁
  · rw [h₁.device] at hp
    exact .inl hp
  have h₂ := h₁.trans i₁.undrawn_readTrailer
  dsimp only at hp ⊢
  generalize i₁.readTrailer = r₂ at h₂ hp ⊢
  obtain ⟨err | _, i₂⟩ := r₂
  · rw [h₂.device] at hp
    exact .inl hp
  dsimp only at h₂ hp ⊢
  unfold readPageAt at hp ⊢
  rcases hc : i₂.machine.cursor.seek offset with _ | c
  · rw [hc] at hp
    rw [← h₂.device]
    exact .inl hp
  simp only [hc] at hp ⊢
  obtain ⟨hdata, hpos⟩ := Cursor.of_seek hc
  split at hp <;> rename_i hbop
  · rw [if_pos hbop]
    obtain hp | ⟨m, hm, hend⟩ := exists_draws_of_runPage _ rfl hbop hp
    · rw [← h₂.device]
      exact .inl hp
    · exact .inr ⟨_, m, hm, hm.offset.trans hpos, hdata.trans h₂.data, hend⟩
  · rw [← h₂.device]
    exact .inl hp

end Interpreter

end Dvi
