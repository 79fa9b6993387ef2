import Dvi.Proofs.Machine.Linked
import Dvi.Proofs.Machine.Resolved

/-!
# Pages that are read by themselves

A page that is read by itself, with the fonts from the end of the stream, is the page that is read from the front.

* `Machine.Shadows`: a machine in the same place and with the same registers as another, but with more fonts.
  **`Machine.Shadows.execute`**: it executes the same commands;
* **`Machine.Draws.shadow`**: it draws the same page;
* `Interpreter.exists_interpretPage`: a page is read by itself;
* **`pageAt_eq`**: so all pages of a stream can be.
-/

namespace Dvi

namespace Machine

variable {σ : Type} [FontSource σ]

/-- `r` is where `m` is. -/
structure Shadows (r m : Machine σ) : Prop where
  cursor : r.cursor = m.cursor
  phase : r.phase = m.phase
  graphics : r.graphics = m.graphics
  selected : ∀ id, m.graphics.font = some id → m.fonts.contains id = true

namespace Shadows

variable {r m m' : Machine σ}

/-- **A machine with more fonts executes the same commands of a page**, and its fonts stay as they are. -/
theorem execute (h : r.Shadows m) {site : Site} {c : Command} {e : Effect σ} (he : m.execute site c = .ok e)
    (hk : e.machine.KeepsFonts r) (hc : c.isOnPage = true ∨ c = .endPage) :
    ∃ e', r.execute site c = .ok e' ∧ e'.machine.Shadows e.machine ∧ e'.signals = e.signals ∧
      e'.machine.fonts = r.fonts ∧ e'.machine.metrics = r.metrics := by
  obtain ⟨hcursor, hphase, hgraphics, hselected⟩ := h
  have hfonts : m.KeepsFonts r := (keepsFonts_of_execute he).trans hk
  cases c with
  | typeset placement code =>
    simp only [Machine.execute, typeset] at he ⊢
    split at he
    · cases he
    rename_i font hfont
    cases he
    have hwidth := (hfonts font (hselected font hfont)).2 code
    simp only [hgraphics, hfont, hwidth]
    exact ⟨_, rfl, ⟨hcursor, hphase, rfl, hselected⟩, rfl, rfl, rfl⟩
  | rule placement height width =>
    cases he
    simp only [Machine.execute, drawRule, hgraphics]
    exact ⟨_, rfl, ⟨hcursor, hphase, rfl, hselected⟩, rfl, rfl, rfl⟩
  | nop =>
    cases he
    exact ⟨_, rfl, ⟨hcursor, hphase, hgraphics, hselected⟩, rfl, rfl, rfl⟩
  | endPage =>
    simp only [Machine.execute] at he ⊢
    rw [hgraphics]
    split at he
    · rename_i hd
      cases he
      rw [if_pos hd]
      exact ⟨_, rfl, ⟨hcursor, rfl, rfl, hselected⟩, rfl, rfl, rfl⟩
    · cases he
  | push =>
    cases he
    simp only [Machine.execute, hgraphics]
    exact ⟨_, rfl, ⟨hcursor, hphase, rfl, hselected⟩, rfl, rfl, rfl⟩
  | pop =>
    simp only [Machine.execute] at he ⊢
    rw [hgraphics]
    split at he
    · rename_i g hg
      cases he
      refine ⟨_, rfl, ⟨hcursor, hphase, rfl, fun id hid => hselected id ?_⟩, rfl, rfl, rfl⟩
      rw [← (Graphics.pop_eq_some hg).2]
      exact hid
    · cases he
  | right d | down d | move reg d =>
    cases he
    simp only [Machine.execute, hgraphics]
    exact ⟨_, rfl, ⟨hcursor, hphase, rfl, hselected⟩, rfl, rfl, rfl⟩
  | selectFont id =>
    simp only [Machine.execute] at he ⊢
    split at he
    · rename_i hid
      cases he
      rw [if_pos (hfonts id hid).1, hgraphics]
      refine ⟨_, rfl, ⟨hcursor, hphase, rfl, ?_⟩, rfl, rfl, rfl⟩
      rintro _ ⟨⟩
      exact hid
    · cases he
  | special payload =>
    cases he
    simp only [Machine.execute, hgraphics]
    exact ⟨_, rfl, ⟨hcursor, hphase, hgraphics, hselected⟩, rfl, rfl, rfl⟩
  | defineFont f =>
    cases he
    -- the font is among those of `r`, which therefore stays as it is
    have hr := r.defineFont_of_contains f (hk f.id ((m.contains_defineFont f f.id).2 (.inr rfl))).1
    obtain ⟨source, fonts, metrics, fontMap, hm⟩ := m.defineFont_eq f
    refine ⟨_, rfl, ?_, ?_, by rw [hr], by rw [hr]⟩
    · rw [hr]
      refine ⟨by rw [hm]; exact hcursor, by rw [hm]; exact hphase, by rw [hm]; exact hgraphics, fun id hid => ?_⟩
      rw [hm] at hid
      exact (m.contains_defineFont f id).2 (.inl (hselected id hid))
    · rw [signals_defineFont, signals_defineFont]
  | _ => exact absurd hc (by simp [Command.isOnPage, Command.draws])

theorem does (h : r.Shadows m) {x : Executed} (hx : m.Does x m') (hk : m'.KeepsFonts r)
    (hc : x.command.isOnPage = true ∨ x.command = .endPage) : ∃ x' r', r.Does x' r' ∧ r'.Shadows m' ∧
      x'.command = x.command ∧ x'.signals = x.signals ∧ r'.fonts = r.fonts ∧ r'.metrics = r.metrics := by
  have hm : (r.reading m'.cursor x.site).Shadows (m.reading m'.cursor x.site) :=
    ⟨rfl, h.phase, h.graphics, h.selected⟩
  have hk' : m'.KeepsFonts (r.reading m'.cursor x.site) := hk.trans (.of_eq rfl rfl)
  obtain ⟨e, he, hshadows, hsignals, hfonts, hmetrics⟩ := hm.execute hx.executed hk' hc
  have hread := hx.read
  have ha := hx.allowed
  rw [← h.cursor] at hread
  rw [← h.phase] at ha
  exact ⟨_, _, does_of_execute hread ha he, hshadows, rfl, hsignals, hfonts, hmetrics⟩

end Shadows

/-- **A machine with more fonts draws the same page.** -/
theorem Draws.shadow {b m r : Machine σ} {p : Page} (h : b.Draws p m) (hcursor : r.cursor = b.cursor)
    (hphase : r.phase = b.phase) (hk : m.KeepsFonts r) :
    ∃ r', r.Draws p r' ∧ r'.Shadows m ∧ r'.fonts = r.fonts ∧ r'.metrics = r.metrics := by
  induction h with
  | @begin x counts back m' hx hc =>
    have hread := hx.read
    have ha := hx.allowed
    have he := hx.executed
    rw [← hcursor] at hread
    rw [← hphase] at ha
    rw [hc] at he
    have hexec : (r.reading m'.cursor x.site).execute x.site x.command =
        .ok ((r.reading m'.cursor x.site).beginPage x.site counts back) := by rw [hc]; rfl
    have hr := does_of_execute hread ha hexec
    have hm := congrArg Effect.machine (Except.ok.inj he)
    change _ = m' at hm
    have hbegin := Draws.begin hr hc
    refine ⟨_, hbegin, ?_, rfl, rfl⟩
    rw [← hm]
    exact ⟨rfl, rfl, rfl, nofun⟩
  | @more p x events m₁ m₂ _ hx hc hs ih =>
    obtain ⟨r₁, hdraws, hshadows, hfonts, hmetrics⟩ := ih (hx.keepsFonts.trans hk)
    have hk' : m₂.KeepsFonts r₁ := hk.trans (.of_eq hfonts hmetrics)
    obtain ⟨x', r₂, hx', hshadows', hcommand, hsignals, hfonts', hmetrics'⟩ := hshadows.does hx hk' (.inl hc)
    exact ⟨r₂, hdraws.more hx' (by rwa [hcommand]) (hsignals.trans hs), hshadows', hfonts'.trans hfonts,
      hmetrics'.trans hmetrics⟩

end Machine

namespace Interpreter

variable {σ : Type} [FontSource σ]

theorem exists_runPage_of_hasDrawn {i : Interpreter σ PageCollector} {m : Machine σ} {p : Page}
    (hp : m.HasDrawn p) (hk : m.KeepsFonts i.machine) (hphase : i.machine.phase = .betweenPages)
    (hdata : i.machine.cursor.data = m.cursor.data) (hpos : i.machine.cursor.pos = p.offset) :
    ∃ j, i.runPage = (.ok (), j) ∧ j.device = ⟨p :: i.device.closed, none⟩ := by
  obtain ⟨b, m₁, m₂, x, h, hb, hx, hc, hr⟩ := hp
  obtain ⟨y, counts, back, m₀, hy, hyc⟩ := hb.exists_begin
  have hcursor : i.machine.cursor = b.cursor := by
    refine Cursor.eq_of_pos ?_ (hpos.trans hb.offset)
    rw [hdata, hr.data, hx.data, hb.data]
  have hbphase : b.phase = .betweenPages := Phase.eq_betweenPages_of_beginPage (hyc ▸ hy.allowed)
  have hk₂ : m₂.KeepsFonts i.machine := hr.keepsFonts.trans hk
  obtain ⟨r, hdraws, hshadows, hfonts, hmetrics⟩ :=
    hb.shadow hcursor (hphase.trans hbphase.symm) (hx.keepsFonts.trans hk₂)
  obtain ⟨x', r', hx', _, hcommand, _⟩ := hshadows.does hx (hk₂.trans (.of_eq hfonts hmetrics)) (.inr hc)
  obtain ⟨log, hrun⟩ := exists_runPage_of_endPage hdraws hx' (hcommand.trans hc)
  exact ⟨_, hrun, rfl⟩

theorem exists_readPreamble {data : ByteArray} {source : σ} {m : Machine σ} {x : Executed}
    (hx : (Machine.start data source).Does x m) (source' : σ) {answer : String → ResolvedFont}
    (hs : AnswersByName source' answer) :
    ∃ j, (Interpreter.start data source' ({} : PageCollector)).readPreamble = (.ok (), j) ∧
      j.machine.randomAccess = false ∧ j.machine.Resolved answer [] := by
  have ha := hx.allowed
  obtain ⟨p, hc⟩ := Phase.exists_preamble_of_allows ha
  have hd := Machine.does_of_execute (m := Machine.start data source') hx.read ha (by rw [hc]; rfl)
  have hresolved : (Machine.start data source').Resolved answer [] := ⟨hs, fun _ => rfl, fun _ => rfl⟩
  have hstep := step_of_does (i := Interpreter.start data source' ({} : PageCollector)) hd
  have hp : (Interpreter.start data source' ({} : PageCollector)).machine.phase = .awaitPreamble := rfl
  unfold readPreamble
  rw [if_pos hp, hstep]
  refine ⟨_, rfl, ?_, ?_⟩
  · exact (Machine.frame_of_execute hd.executed).1
  · have := hresolved.does hd
    rw [hc] at this
    exact this

theorem resolved_defineFonts {i : Interpreter σ PageCollector} {answer : String → ResolvedFont}
    {defs : List FontDefinition} (h : i.machine.Resolved answer defs) (fonts : List FontDefinition) :
    (i.defineFonts fonts).machine.Resolved answer (defs ++ fonts) := by
  induction fonts generalizing i defs with
  | nil => rwa [List.append_nil]
  | cons f fs ih =>
    have hf : (i.apply (i.machine.defineFont f)).machine.Resolved answer (defs ++ [f]) := h.defineFont f
    have := ih hf
    rwa [List.append_assoc, List.singleton_append] at this

theorem exists_readTrailer {i : Interpreter σ PageCollector} {answer : String → ResolvedFont} {t : Trailer}
    {c : Cursor} (hi : i.machine.randomAccess = false) (h : i.machine.Resolved answer [])
    (ht : Trailer.locate i.machine.cursor = .ok t c) :
    ∃ j, i.readTrailer = (.ok (), j) ∧ j.machine.Resolved answer t.fonts := by
  have ht' : Trailer.locate (i.warn (Trailer.warnings i.machine.cursor.data)).machine.cursor = .ok t c := ht
  unfold readTrailer
  rw [if_neg (by simp [hi])]
  simp only [ht']
  refine ⟨_, rfl, ?_⟩
  have hw : (i.warn (Trailer.warnings i.machine.cursor.data)).machine.Resolved answer [] := h
  have hc : ({ i.warn (Trailer.warnings i.machine.cursor.data) with
      machine := { (i.warn (Trailer.warnings i.machine.cursor.data)).machine with
        cursor := c, randomAccess := true } } : Interpreter σ PageCollector).machine.Resolved answer [] :=
    hw.of_eq rfl rfl rfl
  exact (resolved_defineFonts hc t.fonts).of_eq rfl rfl rfl

/-- **A page that was drawn once can be read by itself**, with the fonts from the end of the stream. -/
theorem exists_interpretPage {data : ByteArray} {source source' : σ} {m₀ m : Machine σ} {x : Executed}
    {answer : String → ResolvedFont} {t : Trailer} {c : Cursor} {p : Page}
    (hx : (Machine.start data source).Does x m₀) (hs : AnswersByName source' answer)
    (ht : ∀ c', c'.data = data → Trailer.locate c' = .ok t c) (hp : m.HasDrawn p) (hdata : m.cursor.data = data)
    (hk : ∀ r : Machine σ, r.Resolved answer t.fonts → m.KeepsFonts r) :
    ∃ j, (Interpreter.start data source' ({} : PageCollector)).interpretPage p.offset = (.ok (), j) ∧
      j.device = ⟨[p], none⟩ := by
  have hpre := (Interpreter.start data source' ({} : PageCollector)).undrawn_readPreamble
  obtain ⟨i₁, h₁, hrandom, hresolved⟩ := exists_readPreamble hx source' hs
  rw [h₁] at hpre
  have htrailer := hpre.trans i₁.undrawn_readTrailer
  obtain ⟨i₂, h₂, hresolved₂⟩ := exists_readTrailer hrandom hresolved (ht _ hpre.data)
  rw [h₂] at htrailer
  have hdata₂ : i₂.machine.cursor.data = data := htrailer.data
  -- the page begins where it was begun before
  obtain ⟨b, m₁, m₂, y, h, hb, hy, hc, hr⟩ := id hp
  obtain ⟨z, counts, back, _, hz, hzc⟩ := hb.exists_begin
  have hbdata : b.cursor.data = i₂.machine.cursor.data := by
    rw [hdata₂, ← hdata, hr.data, hy.data, hb.data]
  have hseek : i₂.machine.cursor.seek p.offset = some b.cursor := by
    rw [hb.offset]
    exact Cursor.seek_pos hbdata
  have hread := hz.read
  rw [hzc] at hread
  have hbop : Opcode.ofByte (b.cursor.peek.getD 0) = .beginPage := by
    rw [Cursor.peek_of_command? hread]
    obtain ⟨_, _, _, ht⟩ := Cursor.command?_eq_some_iff.1 hread
    exact (Opcode.of_takes ht).1
  have hk₂ : m.KeepsFonts { i₂.machine with cursor := b.cursor, phase := .betweenPages } :=
    hk _ (hresolved₂.of_eq rfl rfl rfl)
  obtain ⟨j, hj, hdevice⟩ := exists_runPage_of_hasDrawn
    (i := { i₂ with machine := { i₂.machine with cursor := b.cursor, phase := .betweenPages } }) hp hk₂ rfl
    (by rw [hbdata, hdata₂, hdata]) hb.offset.symm
  refine ⟨j, ?_, ?_⟩
  · unfold interpretPage
    simp only [h₁, h₂]
    unfold readPageAt
    simp only [hseek, if_pos hbop, hj]
  · rw [hdevice, htrailer.device]
    rfl

end Interpreter

/-! ## All pages of a stream -/

/-- The numbers of fonts that are defined before the postamble are defined after it, too. -/
def FontsRepeated (h : List Executed) : Prop :=
  ∀ f ∈ fontsBefore h, ∃ g ∈ fontsAfter h, g.id = f.id

instance (h : List Executed) : Decidable (FontsRepeated h) :=
  inferInstanceAs (Decidable (∀ f ∈ fontsBefore h, ∃ g ∈ fontsAfter h, g.id = f.id))

theorem fontsBefore_append_fontsAfter (h : List Executed) :
    fontsBefore h ++ fontsAfter h = h.filterMap fun x => x.command.definition? := by
  unfold fontsBefore fontsAfter
  rw [← List.filterMap_append, List.takeWhile_append_dropWhile]

namespace Consistent

variable {σ : Type} [FontSource σ] {data : ByteArray} {source source' : σ} {doc : Document}
  {answer : String → ResolvedFont}

theorem keepsFonts {m r : Machine σ} (hr : (Machine.start data source).Runs (Machine.start data source).history m)
    (hs : AnswersByName source answer)
    (hw : ∀ x ∈ (Machine.start data source).history, ∀ w ∈ x.warnings, w.isRedefinition = false)
    (hf : FontsRepeated (Machine.start data source).history)
    (h : r.Resolved answer (fontsAfter (Machine.start data source).history)) : m.KeepsFonts r := by
  generalize (Machine.start data source).history = l at hr hw hf h
  have hresolved := hr.resolved hs
  have hu := hr.unambiguous hs hw
  rw [← fontsBefore_append_fontsAfter] at hresolved hu
  refine hresolved.keepsFonts h hu (fun f hf => List.mem_append_right _ hf) fun f hmem => ?_
  obtain hmem | hmem := List.mem_append.1 hmem
  · exact hf f hmem
  · exact ⟨f, hmem, rfl⟩

theorem exists_interpretPage (hd : Consistent data source doc)
    (hw : ∀ w ∈ (interpretPartial data source).warnings, w.isRedefinition = false)
    (hf : FontsRepeated (Machine.start data source).history) (hs : AnswersByName source answer)
    (hs' : AnswersByName source' answer) {p : Page} (hp : p ∈ doc.pages) :
    ∃ j, (Interpreter.start data source' ({} : PageCollector)).interpretPage p.offset = (.ok (), j) ∧
      j.device = ⟨[p], none⟩ := by
  obtain ⟨t, c', hlocate, -, hfonts, -, -⟩ := hd.exists_locate
  obtain ⟨m, hr, hm, hi, hdoc⟩ := exists_runs_of_interpret hd.read
  rw [hi] at hw
  have hw : ∀ x ∈ (Machine.start data source).history, ∀ w ∈ x.warnings, w.isRedefinition = false :=
    fun x hx w hmem => hw w (List.mem_flatMap.2 ⟨x, hx, hmem⟩)
  -- the page was drawn when the stream was read from the front
  have hcollects := hr.collects
  have hcurrent := hcollects.current_eq_none (by rw [hm]; nofun)
  have hdrawn : m.HasDrawn p := by
    refine hcollects.closed p ?_
    have hpages : doc.pages = (((Machine.start data source).history.flatMap Executed.signals).foldl
        Device.receive ({} : PageCollector)).pages := by
      rw [hdoc]
      rfl
    rw [hpages, PageCollector.pages, hcurrent, Option.toList_none, List.append_nil] at hp
    exact List.mem_reverse.1 hp
  have hkeeps : ∀ r : Machine σ, r.Resolved answer t.fonts → m.KeepsFonts r := fun r h =>
    keepsFonts hr hs hw hf (hfonts ▸ h)
  have hdata : m.cursor.data = data := hr.data
  obtain ⟨-, rfl⟩ | ⟨x, _, m₀, -, hx, -⟩ := hr.cases_cons
  · cases hm
  · exact Interpreter.exists_interpretPage hx hs' hlocate hdrawn hdata hkeeps

end Consistent

/-- **A page that is read by itself is the page of the document**, if no font is redefined and all fonts are
defined again after the postamble. There are no other pages. -/
theorem pageAt_eq {σ : Type} [FontSource σ] {data : ByteArray} {source source' : σ} {doc : Document}
    {answer : String → ResolvedFont} (hd : Consistent data source doc)
    (hw : ∀ w ∈ (interpretPartial data source).warnings, w.isRedefinition = false)
    (hf : FontsRepeated (Machine.start data source).history) (hs : AnswersByName source answer)
    (hs' : AnswersByName source' answer) (n : Nat) : (pageAt data source' n).result = .ok doc.pages[n]? := by
  obtain ⟨t, c', hlocate, -, -, -, hchain⟩ := hd.exists_locate
  have hresult : Trailer.locate.result (.start data) = .ok t := Scan.result_eq (hlocate _ rfl)
  have hbuild := PageIndex.build_eq hresult hchain
  rw [List.reverse_reverse] at hbuild
  unfold pageAt
  rcases hb : PageIndex.build data with ⟨r, warnings⟩
  obtain rfl : r = _ := (congrArg Prod.fst hb).symm.trans hbuild
  have hoffset : PageIndex.offset? ⟨(doc.pages.map (·.offset)).toArray, t⟩ n = doc.pages[n]?.map (·.offset) := by
    rw [PageIndex.offset?, List.getElem?_toArray, List.getElem?_map]
  dsimp only
  rw [hoffset]
  rcases hp : doc.pages[n]? with _ | p
  · rfl
  · obtain ⟨j, hj, hdevice⟩ := hd.exists_interpretPage hw hf hs hs' (List.mem_of_getElem? hp)
    have hpages : j.document.pages = [p] := by
      change j.device.pages = [p]
      rw [hdevice]
      rfl
    simp only [Option.map_some, hj, hpages, List.getLast?_singleton]

theorem answersByName_noFonts : AnswersByName NoFonts.mk fun _ => {} :=
  fun _ _ _ => rfl

/-- The two pages, and no third one. -/
theorem pageAt_eq_twoPages : Consistent twoPages NoFonts.mk twoPagesDocument ∧
    (∀ w ∈ (interpretPartial twoPages NoFonts.mk).warnings, w.isRedefinition = false) ∧
    FontsRepeated (Machine.start twoPages NoFonts.mk).history ∧
    (fontsBefore (Machine.start twoPages NoFonts.mk).history).length = 1 ∧
    AnswersByName NoFonts.mk (fun _ => {}) ∧
    (pageAt twoPages NoFonts.mk 0).result = .ok twoPagesDocument.pages[0]? ∧
    (pageAt twoPages NoFonts.mk 2).result = .ok none := by
  have hw : ∀ w ∈ (interpretPartial twoPages NoFonts.mk).warnings, w.isRedefinition = false := by decide +kernel
  have hf : FontsRepeated (Machine.start twoPages NoFonts.mk).history := by decide +kernel
  have hpage := pageAt_eq consistent_twoPages hw hf answersByName_noFonts answersByName_noFonts
  have hlength : twoPagesDocument.pages.length = 2 := by decide +kernel
  refine ⟨consistent_twoPages, hw, hf, by decide +kernel, answersByName_noFonts, hpage 0, ?_⟩
  rw [hpage 2, List.getElem?_eq_none (Nat.le_of_eq hlength)]

end Dvi
