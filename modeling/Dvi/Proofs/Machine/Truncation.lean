import Dvi.Proofs.Machine.Alike
import Dvi.Proofs.Machine.RandomAccess

/-!
# Streams that are cut off

What is read of a stream that ends early is where reading the whole stream begins, and whoever does not miss the
bytes cut off reads nothing more from them.

* `Page.Begins`, `Document.Begins`: a page or a document of which another one is the continuation;
* `Machine.Records`, `Interpreter.Keeps`: what has been kept so far is kept for good. **`Interpreter.Keeps.runs`**: a
  run only goes on with the document;
* `Interpreter.ReadsAlike`: interpreters that have read the same. **`Interpreter.run_eq_of_simulation`**: if they go on
  so, they come to the same end;
* `Interpreter.Matches`: interpreters that have read the same in streams of which one is longer.
  **`Interpreter.Matches.runs`**: a run in the shorter stream is one in the longer stream;
* **`interpretPartial_begins`**: so the document of a stream goes on from that of any beginning of the stream, and
  is the same unless the bytes came to their end there.
-/

namespace Dvi

/-! ## Documents that go on -/

/-- `q` is the page `p`, on which more may have been drawn since. -/
structure Page.Begins (p q : Page) : Prop where
  offset : q.offset = p.offset
  counts : q.counts = p.counts
  backPointer : q.backPointer = p.backPointer
  events : p.events.toList <+: q.events.toList

namespace Page.Begins

theorem refl (p : Page) : p.Begins p := ⟨rfl, rfl, rfl, List.prefix_rfl⟩

theorem trans {p q r : Page} (h : p.Begins q) (h' : q.Begins r) : p.Begins r :=
  ⟨h'.offset.trans h.offset, h'.counts.trans h.counts, h'.backPointer.trans h.backPointer,
    h.events.trans h'.events⟩

theorem antisymm {p q : Page} (h : p.Begins q) (h' : q.Begins p) : p = q := by
  have hevents := Array.toList_inj.1 (h.events.eq_of_length (Nat.le_antisymm h.events.length_le h'.events.length_le))
  obtain ⟨hoffset, hcounts, hback, -⟩ := h
  cases p
  cases q
  congr
  · exact hoffset.symm
  · exact hcounts.symm
  · exact hback.symm

theorem draw (p : Page) (events : List Event) : p.Begins (p.draw events) :=
  ⟨rfl, rfl, rfl, events, by simp [Page.draw]⟩

end Page.Begins

/-- The pages `qs` are the pages `ps` and more; on the last of `ps` more may have been drawn. -/
def PagesBegin (ps qs : List Page) : Prop :=
  ∀ i p, ps[i]? = some p → ∃ q, qs[i]? = some q ∧ p.Begins q ∧ (i + 1 < ps.length → q = p)

namespace PagesBegin

theorem append (ps qs : List Page) : PagesBegin ps (ps ++ qs) := by
  intro i p hp
  have hi : i < ps.length := (List.getElem?_eq_some_iff.1 hp).1
  exact ⟨p, by rw [List.getElem?_append_left hi, hp], .refl p, fun _ => rfl⟩

theorem refl (ps : List Page) : PagesBegin ps ps := by
  simpa using append ps []

theorem last {p q : Page} (h : p.Begins q) (ps : List Page) : PagesBegin (ps ++ [p]) (ps ++ [q]) := by
  intro i r hr
  obtain hi | hi := Nat.lt_or_ge i ps.length
  · rw [List.getElem?_append_left hi] at hr
    exact ⟨r, by rw [List.getElem?_append_left hi, hr], .refl r, fun _ => rfl⟩
  · have hlt := (List.getElem?_eq_some_iff.1 hr).1
    rw [List.length_append, List.length_singleton] at hlt
    obtain rfl : i = ps.length := by omega
    obtain rfl : p = r := by simpa using hr
    exact ⟨q, by simp, h, fun hi => by simp at hi⟩

theorem trans {ps qs rs : List Page} (h : PagesBegin ps qs) (h' : PagesBegin qs rs) : PagesBegin ps rs := by
  intro i p hp
  obtain ⟨q, hq, hpq, heq⟩ := h i p hp
  obtain ⟨r, hr, hqr, heq'⟩ := h' i q hq
  refine ⟨r, hr, hpq.trans hqr, fun hi => ?_⟩
  -- a page that is not the last one in `ps` is not the last one in `qs` either
  obtain ⟨q', hq', _⟩ := h (i + 1) _ (List.getElem?_eq_getElem hi)
  exact (heq' (List.getElem?_eq_some_iff.1 hq').1).trans (heq hi)

end PagesBegin

/-- The document `d'` goes on from `d`. What is in `d` is not read again, but for the end of the postamble, which may
still be missing in `d`, and the last page, on which more may be drawn. -/
structure Document.Begins (d d' : Document) : Prop where
  preamble : ∀ p, d.preamble = some p → d'.preamble = some p
  postamble : ∀ p, d.postamble = some p →
    ∃ pointer id, d'.postamble = some { p with postPointer := pointer, id := id }
  fonts : d.fonts.entries <+: d'.fonts.entries
  fontMap : d.fontMap.entries <+: d'.fontMap.entries
  pages : PagesBegin d.pages d'.pages

namespace Document.Begins

theorem refl (d : Document) : d.Begins d :=
  ⟨fun _ h => h, fun p h => ⟨p.postPointer, p.id, h⟩, List.prefix_rfl, List.prefix_rfl, .refl _⟩

theorem trans {d₁ d₂ d₃ : Document} (h : d₁.Begins d₂) (h' : d₂.Begins d₃) : d₁.Begins d₃ := by
  refine ⟨fun p hp => h'.preamble p (h.preamble p hp), fun p hp => ?_, h.fonts.trans h'.fonts,
    h.fontMap.trans h'.fontMap, h.pages.trans h'.pages⟩
  obtain ⟨_, _, hp₂⟩ := h.postamble p hp
  obtain ⟨pointer, id, hp₃⟩ := h'.postamble _ hp₂
  exact ⟨pointer, id, hp₃⟩

end Document.Begins

/-! ## What commands record -/

/-- The postamble after a command. -/
def Command.amend (c : Command) (p : Option Postamble) : Option Postamble :=
  match c with
  | .postamble q => some q
  | .postPostamble pointer id => p.map fun p => { p with postPointer := some pointer, id := some id }
  | _ => p

namespace Machine

variable {σ : Type} [FontSource σ] {m m' r : Machine σ} {answer : String → ResolvedFont}

theorem records_of_execute {site : Site} {c : Command} {e : Effect σ} (h : m.execute site c = .ok e) :
    e.machine.preamble = c.preamble?.or m.preamble ∧ e.machine.postamble = c.amend m.postamble ∧
      (c.definition? = none → e.machine.fontMap = m.fontMap) := by
  cases execute_eq_ok_iff.1 h with
  | @defineFont f =>
    obtain ⟨source, fonts, metrics, fontMap, e⟩ := m.defineFont_eq f
    rw [e]
    exact ⟨rfl, rfl, by simp [Command.definition?]⟩
  | _ => exact ⟨rfl, rfl, fun _ => rfl⟩

theorem Does.records {x : Executed} (hx : m.Does x m') : m'.preamble = x.command.preamble?.or m.preamble ∧
    m'.postamble = x.command.amend m.postamble ∧ (x.command.definition? = none → m'.fontMap = m.fontMap) :=
  records_of_execute hx.executed

/-- What the machine has recorded was to be recorded in its phase, and the font map has the answers of the source. -/
structure Records (m : Machine σ) (answer : String → ResolvedFont) : Prop where
  source : AnswersByName m.source answer
  preamble : m.phase = .awaitPreamble → m.preamble = none
  postamble : m.phase = .betweenPages ∨ m.phase = .inPage ∨ m.phase = .awaitPreamble → m.postamble = none
  fontMap : ∀ name record, m.fontMap.find? name = some record → (answer name).record = some record

namespace Records

theorem start {source : σ} (hs : AnswersByName source answer) (data : ByteArray) :
    (Machine.start data source).Records answer :=
  ⟨hs, fun _ => rfl, fun _ => rfl, nofun⟩

theorem defineFont (h : m.Records answer) (f : FontDefinition) : (m.defineFont f).machine.Records answer := by
  obtain ⟨hs, hpre, hpost, hmap⟩ := id h
  have hanswer := hs _ .nil f
  unfold Machine.defineFont
  split
  · exact h
  · refine ⟨hs.ask f, hpre, hpost, fun name record hr => ?_⟩
    dsimp only at hr
    split at hr
    · rename_i new hnew
      rw [Table.find?_insert] at hr
      split at hr
      · rename_i hname
        rw [hname, ← hanswer, hnew, hr]
      · exact hmap name record hr
    · exact hmap name record hr

theorem does (h : m.Records answer) {x : Executed} (hx : m.Does x m') : m'.Records answer := by
  have hphase := hx.phase
  have ha := hx.allowed
  rcases hc : x.command.definition? with _ | f
  · obtain ⟨hpre, hpost, hmap⟩ := hx.records
    obtain ⟨_, _, hsource⟩ := hx.fonts_eq hc
    refine ⟨hsource ▸ h.source, fun hm => ?_, fun hm => ?_, fun name record hr => ?_⟩
    · rw [hphase] at hm
      cases hp : m.phase <;> cases hc : x.command <;> simp_all [Phase.allows, Phase.next]
    · rw [hphase] at hm
      have hnone := h.postamble
      cases hp : m.phase <;> cases hc : x.command <;> simp_all [Phase.allows, Phase.next, Command.amend]
    · exact h.fontMap name record (hmap hc ▸ hr)
  · have hr : (m.reading m'.cursor x.site).Records answer := ⟨h.source, h.preamble, h.postamble, h.fontMap⟩
    rw [hx.eq_defineFont hc]
    exact hr.defineFont f

end Records

/-! ## Runs go on with the document -/

theorem Collects.pagesBegin {c : PageCollector} {x : Executed} (h : m.Collects c) (hx : m.Does x m') :
    PagesBegin c.pages (x.signals.foldl Device.receive c).pages := by
  obtain ⟨hp, -, events, hs⟩ | ⟨hp, -, hs⟩ | ⟨hp, -, p, -, hs⟩ | ⟨-, -, hs⟩ := hx.signals_cases <;> rw [hs]
  · obtain ⟨p, hcur⟩ := h.underway hp
    rw [c.foldl_receive_event p hcur]
    simp only [PageCollector.pages, hcur, Option.toList_some]
    exact .last (.draw p events) _
  · obtain ⟨p, hcur⟩ := h.underway hp
    obtain ⟨closed, current⟩ := c
    obtain rfl : current = some p := hcur
    simp only [PageCollector.pages, List.foldl_cons, List.foldl_nil, Device.receive, List.reverse_cons,
      Option.toList_some, Option.toList_none, List.append_nil]
    exact .refl _
  · simp only [PageCollector.pages, List.foldl_cons, List.foldl_nil, Device.receive, h.current_eq_none hp,
      Option.toList_none, List.append_nil]
    exact .append _ _
  · exact .refl _

theorem Does.fonts_begin {x : Executed} (hx : m.Does x m') : m.fonts.entries <+: m'.fonts.entries := by
  rcases hc : x.command.definition? with _ | f
  · rewrite [(hx.fonts_eq hc).1]
    exact List.prefix_rfl
  · rw [hx.fonts_of_definition? hc]
    split
    · exact List.prefix_rfl
    · rename_i hn
      exact Table.entries_insert fun v hv => absurd (Table.contains_iff.2 ⟨v, hv⟩) hn

namespace Records

theorem fontMap_begins (h : m.Records answer) {x : Executed} (hx : m.Does x m') :
    m.fontMap.entries <+: m'.fontMap.entries := by
  rcases hc : x.command.definition? with _ | f
  · rewrite [hx.records.2.2 hc]
    exact List.prefix_rfl
  · have hanswer := h.source _ .nil f
    rw [hx.eq_defineFont hc]
    unfold Machine.defineFont
    split
    · exact List.prefix_rfl
    · dsimp only
      split
      · rename_i record hrecord
        -- a record that is there is the answer for this name, too
        refine Table.entries_insert fun v hv => ?_
        have hv := h.fontMap f.name v hv
        rw [← hanswer] at hv
        exact Option.some.inj (hv.symm.trans hrecord)
      · exact List.prefix_rfl

theorem preamble_begins (h : m.Records answer) {x : Executed} (hx : m.Does x m') {p : Preamble}
    (hp : m.preamble = some p) : m'.preamble = some p := by
  have ha := hx.allowed
  have hm : m.phase ≠ .awaitPreamble := fun e => by simp [h.preamble e] at hp
  rw [hx.records.1, hp]
  cases hph : m.phase <;> cases hc : x.command <;> simp_all [Phase.allows, Command.preamble?]

theorem postamble_begins (h : m.Records answer) {x : Executed} (hx : m.Does x m') {p : Postamble}
    (hp : m.postamble = some p) : ∃ pointer id, m'.postamble = some { p with postPointer := pointer, id := id } := by
  have ha := hx.allowed
  have hm : m.phase = .inPostamble := by
    have hnone := h.postamble
    cases hph : m.phase <;> simp_all [Phase.allows]
  rw [hx.records.2.1, hp]
  by_cases hc : ∃ pointer id, x.command = .postPostamble pointer id
  · obtain ⟨pointer, id, hc⟩ := hc
    exact ⟨some pointer, some id, by rw [hc]; rfl⟩
  · rw [hm] at ha
    obtain hc | ⟨f, hc⟩ := Phase.nop_or_defineFont ha fun pointer id e => hc ⟨pointer, id, e⟩
    · exact ⟨p.postPointer, p.id, by rw [hc]; rfl⟩
    · exact ⟨p.postPointer, p.id, by rw [hc]; rfl⟩

end Records

end Machine

namespace Interpreter

variable {σ : Type} [FontSource σ] {i j : Interpreter σ PageCollector} {m r : Machine σ} {x : Executed}
  {h : List Executed} {answer : String → ResolvedFont}

/-- The pages and the records of the interpreter are those of its stream. -/
structure Keeps (i : Interpreter σ PageCollector) (answer : String → ResolvedFont) : Prop where
  collects : i.machine.Collects i.device
  records : i.machine.Records answer

namespace Keeps

theorem start {source : σ} (hs : AnswersByName source answer) (data : ByteArray) :
    (Interpreter.start data source {}).Keeps answer :=
  ⟨⟨nofun, nofun, nofun⟩, .start hs data⟩

theorem does (hk : i.Keeps answer) (hx : i.machine.Does x m) :
    (i.advance [x] m).Keeps answer ∧ i.document.Begins (i.advance [x] m).document := by
  rw [advance_singleton]
  exact ⟨⟨hk.collects.receive hx, hk.records.does hx⟩,
    fun _ => hk.records.preamble_begins hx, fun _ => hk.records.postamble_begins hx, hx.fonts_begin,
    hk.records.fontMap_begins hx, hk.collects.pagesBegin hx⟩

/-- **A run goes on with the document.** -/
theorem runs (hk : i.Keeps answer) (hr : i.machine.Runs h m) :
    (i.advance h m).Keeps answer ∧ i.document.Begins (i.advance h m).document := by
  induction hr with
  | nil =>
    rw [advance_nil]
    exact ⟨hk, .refl _⟩
  | @snoc h x m₁ m₂ _ hx ih =>
    rw [advance_concat i h x m₁ m₂]
    obtain ⟨hk₂, hb⟩ := ih.1.does hx
    exact ⟨hk₂, ih.2.trans hb⟩

end Keeps

theorem document_advance_of_failure {err : Error} {e : Effect σ} (hs : m.step = (.error err, e)) :
    (i.advance h e.machine).document = (i.advance h m).document := by
  obtain ⟨_, _, c, site, _, he⟩ := Machine.of_step_eq_error hs
  rw [he]
  rfl

theorem Keeps.run (hk : i.Keeps answer) : i.document.Begins i.run.2.document := by
  obtain ⟨h, m, hr, ⟨_, he⟩ | ⟨err, e, hs, he⟩⟩ := i.exists_runs
  · rw [he]
    exact (hk.runs hr).2
  · rw [he, document_advance_of_failure hs]
    exact (hk.runs hr).2

/-! ## Two runs that read the same -/

/-- `j` has read what `i` has read. -/
structure ReadsAlike (i j : Interpreter σ PageCollector) : Prop where
  alike : i.machine.Alike j.machine
  device : j.device = i.device
  preamble : j.machine.preamble = i.machine.preamble
  postamble : j.machine.postamble = i.machine.postamble
  fontMap : j.machine.fontMap = i.machine.fontMap

namespace ReadsAlike

theorem start {p d : ByteArray} {source source' : σ} (hs : AnswersAlike source source') :
    (Interpreter.start p source {}).ReadsAlike (.start d source' {}) :=
  ⟨⟨⟨rfl, rfl, hs⟩, rfl, fun _ => rfl⟩, rfl, rfl, rfl, rfl⟩

theorem document (hm : i.ReadsAlike j) : j.document = i.document := by
  simp only [Interpreter.document, takePages, hm.device, hm.preamble, hm.postamble, hm.alike.fonts, hm.fontMap]

theorem expectedId (hm : i.ReadsAlike j) : j.machine.expectedId = i.machine.expectedId := by
  simp only [Machine.expectedId, hm.preamble]

theorem same {x' : Executed} (hm : i.ReadsAlike j) (hx : i.machine.Does x m) (hx' : j.machine.Does x' r)
    (hsame : x.Same x') (halike : m.Alike r) : (i.advance [x] m).ReadsAlike (j.advance [x'] r) := by
  obtain ⟨hpre, hpost, hmap⟩ := hx.records
  obtain ⟨hpre', hpost', hmap'⟩ := hx'.records
  rw [hsame.command] at hpre' hpost' hmap'
  have hfontMap : r.fontMap = m.fontMap := by
    rcases hc : x.command.definition? with _ | f
    · rw [hmap hc, hmap' hc, hm.fontMap]
    · rw [hx.eq_defineFont hc, hx'.eq_defineFont (hsame.command ▸ hc), hsame.site]
      exact (hm.alike.reading _ _ _).toSameFonts.fontMap_defineFont hm.fontMap f
  rw [advance_singleton, advance_singleton]
  refine ⟨halike, ?_, ?_, ?_, hfontMap⟩
  · simp only [hsame.signals, hm.device]
  · simp only [hpre, hpre', hm.preamble]
  · simp only [hpost, hpost', hm.postamble]

end ReadsAlike

section Simulation

variable {R : Interpreter σ PageCollector → Interpreter σ PageCollector → Prop}
  (hdoes : ∀ {i j x m}, R i j → i.machine.Does x m →
    ∃ x' r, j.machine.Does x' r ∧ R (i.advance [x] m) (j.advance [x'] r))

include hdoes

/-- What the steps of two interpreters keep up, their runs keep up. -/
theorem exists_runs_of_simulation (hR : R i j) (hr : i.machine.Runs h m) :
    ∃ h' r, j.machine.Runs h' r ∧ R (i.advance h m) (j.advance h' r) := by
  induction hr with
  | nil => exact ⟨[], j.machine, .nil, by rwa [advance_nil, advance_nil]⟩
  | @snoc h x m₁ m₂ _ hx ih =>
    obtain ⟨h', r₁, hr, hR₁⟩ := ih
    obtain ⟨x', r₂, hx', hR₂⟩ := hdoes hR₁ hx
    refine ⟨h' ++ [x'], r₂, hr.snoc hx', ?_⟩
    rwa [advance_concat i h x m₁ m₂, advance_concat j h' x' r₁ r₂]

/-- **If `j` does what `i` does and fails of what `i` fails of in the end, both come to the same end.** -/
theorem run_eq_of_simulation (hread : ∀ {i j}, R i j → i.ReadsAlike j)
    (hfails : ∀ {i' j' err}, R i' j' → i.run.1 = .error err → i'.machine.Fails err → j'.machine.Fails err)
    (hR : R i j) : j.run.1 = i.run.1 ∧ j.run.2.document = i.run.2.document := by
  obtain ⟨h, m, hr, hend⟩ := i.exists_runs
  obtain ⟨h', r, hr', hR'⟩ := exists_runs_of_simulation hdoes hR hr
  have hphase : r.phase = m.phase := (hread hR').alike.phase
  rw [run_of_runs hr']
  obtain ⟨hfinal, he⟩ | ⟨err, e, hs, he⟩ := hend <;> rw [he] at hfails ⊢
  · have hfinal' : (j.advance h' r).machine.phase.isFinal = true := hphase ▸ hfinal
    rw [run_of_last_step (step_of_isFinal hfinal')]
    exact ⟨rfl, (hread hR').document⟩
  · have hactive : m.phase.isFinal = false := Machine.active_of_step_eq_error hs
    have hfails' : r.Fails err := hfails hR' rfl ((Machine.step_eq_error_iff hactive).1 (by rw [hs]))
    obtain ⟨e', hs'⟩ := Machine.exists_step_of_fails (hphase ▸ hactive) hfails'
    have hstep : (j.advance h' r).step = (.error err, j.advance h' e'.machine) := step_of_failure hs'
    rw [run_of_failure hstep, document_advance_of_failure hs', document_advance_of_failure hs]
    exact ⟨rfl, (hread hR').document⟩

end Simulation

/-! ## Runs in a longer stream -/

/-- `j` has read in a longer stream what `i` has read. -/
structure Matches (i j : Interpreter σ PageCollector) : Prop extends ReadsAlike i j where
  cursor : i.machine.cursor.Extends j.machine.cursor

namespace Matches

theorem does (hm : i.Matches j) (hx : i.machine.Does x m) :
    ∃ x' r, j.machine.Does x' r ∧ (i.advance [x] m).Matches (j.advance [x'] r) := by
  obtain ⟨x', r, hx', hsame, halike, hcursor⟩ := hm.alike.does hm.cursor (fun _ => hm.expectedId) hx
  refine ⟨x', r, hx', hm.same hx hx' hsame halike, ?_⟩
  rwa [advance_singleton, advance_singleton]

/-- **A run in the shorter stream is one in the longer stream.** -/
theorem runs (hm : i.Matches j) (hr : i.machine.Runs h m) :
    ∃ h' r, j.machine.Runs h' r ∧ (i.advance h m).Matches (j.advance h' r) :=
  exists_runs_of_simulation does hm hr

theorem start {p d : ByteArray} (hpd : p.data.toList <+: d.data.toList) {source source' : σ}
    (hs : AnswersAlike source source') : (Interpreter.start p source {}).Matches (.start d source' {}) :=
  ⟨.start hs, .start hpd⟩

theorem run (hm : i.Matches j) (hr : ∀ s opcode, i.run.1 ≠ .error (.truncated s opcode)) :
    j.run.1 = i.run.1 ∧ j.run.2.document = i.run.2.document := by
  refine run_eq_of_simulation does toReadsAlike (fun hm' he hfails => ?_) hm
  exact hm'.alike.fails hm'.cursor (fun _ => hm'.expectedId) hfails (.inl fun s opcode e => hr s opcode (by rw [he, e]))

/-- What is read of the longer stream goes on from what is read of the shorter one. -/
theorem run_begins (hm : i.Matches j) (hk : j.Keeps answer) : i.run.2.document.Begins j.run.2.document := by
  obtain ⟨h, m, hruns, hend⟩ := i.exists_runs
  obtain ⟨h', r, hruns', hm'⟩ := hm.runs hruns
  have hi : i.run.2.document = (i.advance h m).document := by
    obtain ⟨_, he⟩ | ⟨err, e, hs, he⟩ := hend <;> rw [he]
    exact document_advance_of_failure hs
  rw [hi, ← hm'.document, run_of_runs hruns']
  exact (hk.runs hruns').1.run

end Matches

end Interpreter

/-- **The document of a stream goes on from that of any beginning of the stream**, and is the same, with the same
error or none, unless the bytes came to their end there. -/
theorem interpretPartial_begins {σ : Type} [FontSource σ] {p d : ByteArray} (hpd : p.data.toList <+: d.data.toList)
    {source source' : σ} {answer : String → ResolvedFont} (hs : AnswersByName source answer)
    (hs' : AnswersByName source' answer) :
    (interpretPartial p source).document.Begins (interpretPartial d source').document ∧
      ((∀ s opcode, (interpretPartial p source).failure ≠ some (.truncated s opcode)) →
        (interpretPartial d source').failure = (interpretPartial p source).failure ∧
          (interpretPartial d source').document = (interpretPartial p source).document) := by
  have hm : (Interpreter.start p source {}).Matches (.start d source' {}) := .start hpd (hs.alike hs')
  refine ⟨hm.run_begins (.start hs' d), fun hf => ?_⟩
  obtain ⟨hresult, hdocument⟩ := hm.run fun s opcode he => hf s opcode (by
    simp only [interpretPartial, Interpretation.failure, he])
  refine ⟨?_, hdocument⟩
  simp only [interpretPartial, Interpretation.failure, hresult]

/-- The stream of two pages, cut off on the first page before its rule. -/
def twoPagesCut : ByteArray := twoPages.extract 0 84

/-- The first page without its rule, and both pages with another byte behind the stream. -/
theorem interpretPartial_begins_twoPages :
    (twoPagesCut.data.toList <+: twoPages.data.toList ∧
      twoPages.data.toList <+: (twoPages.push 65).data.toList ∧ AnswersByName NoFonts.mk fun _ => {}) ∧
    ((interpretPartial twoPagesCut NoFonts.mk).document.Begins twoPagesDocument ∧
      (interpretPartial twoPagesCut NoFonts.mk).document.pages.map (·.events.size) = [2] ∧
      twoPagesDocument.pages.map (·.events.size) = [3, 0]) ∧
    (interpretPartial twoPages NoFonts.mk).failure = none ∧
    (interpretPartial (twoPages.push 65) NoFonts.mk).failure = none ∧
    (interpretPartial (twoPages.push 65) NoFonts.mk).document = twoPagesDocument := by
  have hcut : twoPagesCut.data.toList <+: twoPages.data.toList := by simp [twoPagesCut, List.take_prefix]
  have hpush : twoPages.data.toList <+: (twoPages.push 65).data.toList := by simp
  have hnone : (interpretPartial twoPages NoFonts.mk).failure.isNone = true := by decide +kernel
  rw [Option.isNone_iff_eq_none] at hnone
  have hbegins := interpretPartial_begins hcut answersByName_noFonts answersByName_noFonts
  have hsame := interpretPartial_begins hpush answersByName_noFonts answersByName_noFonts
  obtain ⟨hfailure, hdocument⟩ := hsame.2 (by rw [hnone]; exact nofun)
  exact ⟨⟨hcut, hpush, answersByName_noFonts⟩, ⟨hbegins.1, by decide +kernel, by decide +kernel⟩, hnone,
    hfailure.trans hnone, hdocument⟩

end Dvi
