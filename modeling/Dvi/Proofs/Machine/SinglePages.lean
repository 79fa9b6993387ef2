import Dvi.Proofs.Machine.Alike
import Dvi.Proofs.Machine.Linked

/-!
# Single pages

A page that is read by itself depends on the bytes and on the fonts, and on nothing else that was read before.

* `Interpreter.exists_runs_of_runPage`: how a page is read;
* `Machine.Runs.sameFonts`: a run that defines no new number changes no fonts;
* `Interpreter.SameReading`: two readings that cannot be told apart. **`Interpreter.SameReading.readPageAt`**: so are
  those of one page with the same fonts.
-/

namespace Dvi

namespace Machine

variable {σ : Type} [FontSource σ] {m m' r : Machine σ} {x : Executed} {h : List Executed}

/-! ## What a run leaves alone -/

theorem Runs.randomAccess (hr : m.Runs h m') : m'.randomAccess = m.randomAccess := by
  induction hr with
  | nil => rfl
  | snoc _ hx ih => exact (frame_of_execute hx.executed).1.trans ih

theorem Runs.ne_awaitPreamble (hr : m.Runs h m') (hm : m.phase ≠ .awaitPreamble) : m'.phase ≠ .awaitPreamble := by
  induction hr with
  | nil => exact hm
  | @snoc _ x _ _ _ hx ih =>
    rw [hx.phase]
    cases hc : x.command <;> simp_all [Phase.next]

theorem Does.sameFonts (hx : m.Does x m')
    (hk : ∀ id, m'.fonts.contains id = true → m.fonts.contains id = true) : m.SameFonts m' := by
  rcases hc : x.command.definition? with _ | f
  · obtain ⟨hfonts, hmetrics, hsource⟩ := hx.fonts_eq hc
    exact ⟨hfonts, hmetrics, hsource ▸ .refl _⟩
  · have hm := hx.eq_defineFont hc
    have hf : m'.fonts.contains f.id = true := by
      rw [hm]
      exact (contains_defineFont _ f f.id).2 (.inr rfl)
    have hkept : m.fonts.contains f.id = true := hk f.id hf
    rw [hm, defineFont_of_contains (m.reading m'.cursor x.site) f hkept]
    exact ⟨rfl, rfl, .refl _⟩

/-- **A run that defines no new number changes no fonts.** -/
theorem Runs.sameFonts (hr : m.Runs h m')
    (hk : ∀ id, m'.fonts.contains id = true → m.fonts.contains id = true) : m.SameFonts m' := by
  induction hr with
  | nil => exact .refl m
  | @snoc h x m₁ m₂ hr hx ih =>
    have h₁ := ih fun id hid => hk id (hx.keepsFonts id hid).1
    exact h₁.trans (hx.sameFonts fun id hid => (hr.keepsFonts id (hk id hid)).1)

theorem sameFonts_of_failure {err : Error} {e : Effect σ} (hs : m.step = (.error err, e)) :
    m.SameFonts e.machine := by
  obtain ⟨_, _, c, site, _, he⟩ := of_step_eq_error hs
  rw [he]
  exact ⟨rfl, rfl, .refl _⟩

theorem Alike.exists_step (ha : m.Alike r) (hc : r.cursor = m.cursor) (hm : m.phase ≠ .inPostamble) {err : Error}
    {e : Effect σ} (hs : m.step = (.error err, e)) :
    ∃ e', r.step = (.error err, e') ∧ e.machine.SameFonts e'.machine := by
  have hactive := active_of_step_eq_error hs
  have hfails : m.Fails err := (step_eq_error_iff hactive).1 (by rw [hs])
  have hfails' : r.Fails err := ha.fails (hc ▸ .refl _) (fun h => absurd h hm) hfails (.inr hc)
  obtain ⟨e', hs'⟩ := exists_step_of_fails (by rw [ha.phase, hactive]) hfails'
  exact ⟨e', hs', (sameFonts_of_failure hs).symm.trans (ha.toSameFonts.trans (sameFonts_of_failure hs'))⟩

end Machine

namespace Interpreter

variable {σ : Type} [FontSource σ]

/-! ## How a page is read -/

theorem exists_runs_of_runPage {δ : Type} [Device δ] (i : Interpreter σ δ) : ∃ h m, i.machine.Runs h m ∧
    (i.runPage.2.machine = m ∨ ∃ err e, m.step = (.error err, e) ∧ i.runPage.2.machine = e.machine) := by
  rcases hs : i.step with ⟨err | more, j⟩
  · obtain ⟨e, hm, rfl⟩ := exists_machine_step_of_failure hs
    exact ⟨[], i.machine, .nil, .inr ⟨err, e, hm, by rw [runPage_of_failure hs]⟩⟩
  by_cases hfinal : i.machine.phase.isFinal = true
  · have hlast : i.runPage = (.ok (), i) := by
      rw [runPage]
      split <;> rename_i hs' <;> rw [step_of_isFinal hfinal] at hs' <;> cases hs'
      rfl
    exact ⟨[], i.machine, .nil, .inl (by rw [hlast])⟩
  obtain ⟨x, hx, _⟩ := exists_does_of_step (by simpa using hfinal) hs
  cases more with
  | false =>
    have hlast : i.runPage = (.ok (), j) := by
      rw [runPage]
      split <;> rename_i hs' <;> rw [hs] at hs' <;> cases hs'
      rfl
    exact ⟨[x], j.machine, .cons hx .nil, .inl (by rw [hlast])⟩
  | true =>
    rw [runPage_of_step hs]
    split
    · exact ⟨[x], j.machine, .cons hx .nil, .inl rfl⟩
    · have hlt := remaining_lt_of_step hs
      obtain ⟨h, m, hr, hend⟩ := exists_runs_of_runPage j
      exact ⟨x :: h, m, .cons hx hr, hend⟩
termination_by i.machine.cursor.remaining

/-! ## Readings that are the same -/

/-- What `j` reads, which becomes `s`, is what `i` reads, which becomes `r`. -/
structure SameReading (i j : Interpreter σ PageCollector) (r s : Except Error Unit × Interpreter σ PageCollector) :
    Prop where
  result : s.1 = r.1
  fonts : r.2.machine.SameFonts s.2.machine
  page : r.1 = .ok () → ∃ p, r.2.device = ⟨p :: i.device.closed, none⟩ ∧ s.2.device = ⟨p :: j.device.closed, none⟩ ∧
    r.2.machine.phase = .betweenPages

namespace SameReading

variable {i j : Interpreter σ PageCollector}

theorem runPage (ha : i.machine.Alike j.machine) (hc : j.machine.cursor = i.machine.cursor)
    (hphase : i.machine.phase = .betweenPages)
    (hbop : Opcode.ofByte (i.machine.cursor.peek.getD 0) = .beginPage) :
    SameReading i j i.runPage j.runPage := by
  obtain ⟨err, e, hs⟩ | ⟨p, m, hm, hend⟩ := i.machine.draws_cases hphase hbop
  · obtain ⟨e', hs', hfonts⟩ := ha.exists_step hc (by simp [hphase]) hs
    rw [runPage_of_failure (step_of_failure hs), runPage_of_failure (step_of_failure hs')]
    exact ⟨rfl, hfonts, by simp⟩
  obtain ⟨r, hr, ha', hc'⟩ := ha.draws hc hm
  have hpage : m.phase ≠ .inPostamble := by simp [hm.phase]
  obtain ⟨x, m', hx, hcommand⟩ | ⟨err, e, hs⟩ := hend
  · obtain ⟨x', r', hx', hsame, ha'', _⟩ := ha'.does (hc' ▸ .refl _) (fun h => absurd h hpage) hx
    obtain ⟨log, he⟩ := exists_runPage_of_endPage hm hx hcommand
    obtain ⟨log', he'⟩ := exists_runPage_of_endPage hr hx' (hsame.command.trans hcommand)
    rw [he, he']
    refine ⟨rfl, ha''.toSameFonts, fun _ => ⟨p, rfl, rfl, ?_⟩⟩
    rw [hx.phase, hcommand, Phase.next]
  · obtain ⟨e', hs', hfonts⟩ := ha'.exists_step hc' hpage hs
    obtain ⟨log, he⟩ := exists_runPage_of_failure hm hs
    obtain ⟨log', he'⟩ := exists_runPage_of_failure hr hs'
    rw [he, he']
    exact ⟨rfl, hfonts, by simp⟩

/-- **A page depends on the bytes and the fonts only.** -/
theorem readPageAt (hf : i.machine.SameFonts j.machine) (hdata : j.machine.cursor.data = i.machine.cursor.data)
    (offset : Nat) : SameReading i j (i.readPageAt offset) (j.readPageAt offset) := by
  have hseek : j.machine.cursor.seek offset = i.machine.cursor.seek offset := by simp only [Cursor.seek, hdata]
  unfold Interpreter.readPageAt
  rw [hseek, hdata]
  rcases i.machine.cursor.seek offset with _ | c
  · exact ⟨rfl, hf, by simp⟩
  dsimp only
  by_cases hbop : Opcode.ofByte (c.peek.getD 0) = .beginPage
  · rw [if_pos hbop, if_pos hbop]
    have hread := runPage (i := { i with machine := { i.machine with cursor := c, phase := .betweenPages } })
      (j := { j with machine := { j.machine with cursor := c, phase := .betweenPages } })
      ⟨⟨hf.fonts, hf.metrics, hf.source⟩, rfl, by simp⟩ rfl rfl hbop
    exact ⟨hread.result, hread.fonts, hread.page⟩
  · rw [if_neg hbop, if_neg hbop]
    exact ⟨rfl, ⟨hf.fonts, hf.metrics, hf.source⟩, by simp⟩

end SameReading

/-! ## What reading a page leaves alone -/

/-- The interpreter is prepared to read single pages. -/
structure Ready (i : Interpreter σ PageCollector) (data : ByteArray) : Prop where
  data : i.machine.cursor.data = data
  phase : i.machine.phase ≠ .awaitPreamble
  randomAccess : i.machine.randomAccess = true

/-- A call for a page does nothing before the page. -/
theorem Ready.interpretPage {i : Interpreter σ PageCollector} {data : ByteArray} (h : i.Ready data) (offset : Nat) :
    i.interpretPage offset = i.readPageAt offset := by
  have hpre : i.readPreamble = (.ok (), i) := if_neg h.phase
  have htrailer : i.readTrailer = (.ok (), i) := if_pos h.randomAccess
  simp only [Interpreter.interpretPage, hpre, htrailer]

/-- Where a page is read, a run is made, perhaps up to a step that fails; or the offset is refused. -/
theorem readPageAt_cases (i : Interpreter σ PageCollector) (offset : Nat) :
    (∃ (c : Cursor) (phase : Phase), c.data = i.machine.cursor.data ∧ (phase = i.machine.phase ∨ phase = .failed) ∧
      (i.readPageAt offset).2.machine = { i.machine with cursor := c, phase }) ∨
    ∃ (c : Cursor) (h : List Executed) (m : Machine σ), c.data = i.machine.cursor.data ∧
      ({ i.machine with cursor := c, phase := .betweenPages } : Machine σ).Runs h m ∧
      ((i.readPageAt offset).2.machine = m ∨
        ∃ err e, m.step = (.error err, e) ∧ (i.readPageAt offset).2.machine = e.machine) := by
  unfold readPageAt
  rcases hc : i.machine.cursor.seek offset with _ | c
  · exact .inl ⟨_, _, rfl, .inl rfl, rfl⟩
  have hdata := (Cursor.of_seek hc).1
  dsimp only
  split
  · obtain ⟨h, m, hr, hend⟩ :=
      exists_runs_of_runPage { i with machine := { i.machine with cursor := c, phase := .betweenPages } }
    exact .inr ⟨c, h, m, hdata, hr, hend⟩
  · exact .inl ⟨c, .failed, hdata, .inr rfl, rfl⟩

theorem Ready.readPageAt {i : Interpreter σ PageCollector} {data : ByteArray} (hi : i.Ready data) (offset : Nat) :
    (i.readPageAt offset).2.Ready data := by
  obtain ⟨c, phase, hdata, hphase, he⟩ | ⟨c, h, m, hdata, hr, hend⟩ := i.readPageAt_cases offset
  · refine ⟨?_, ?_, ?_⟩ <;> rw [he]
    · exact hdata.trans hi.data
    · obtain rfl | rfl := hphase
      · exact hi.phase
      · nofun
    · exact hi.randomAccess
  · have hm : m.cursor.data = data := hr.data.trans (hdata.trans hi.data)
    have hphase : m.phase ≠ .awaitPreamble := hr.ne_awaitPreamble nofun
    have hrandom : m.randomAccess = true := hr.randomAccess.trans hi.randomAccess
    obtain he | ⟨err, e, hs, he⟩ := hend
    · exact ⟨he ▸ hm, he ▸ hphase, he ▸ hrandom⟩
    · obtain ⟨_, _, c', site, hc', heq⟩ := Machine.of_step_eq_error hs
      refine ⟨?_, ?_, ?_⟩ <;> rw [he, heq]
      · exact hc'.trans hm
      · nofun
      · exact hrandom

theorem sameFonts_readPageAt {i : Interpreter σ PageCollector} {offset : Nat}
    (hk : ∀ id, (i.readPageAt offset).2.machine.fonts.contains id = true → i.machine.fonts.contains id = true) :
    i.machine.SameFonts (i.readPageAt offset).2.machine := by
  obtain ⟨c, phase, hdata, hphase, he⟩ | ⟨c, h, m, hdata, hr, hend⟩ := i.readPageAt_cases offset
  · rw [he]
    exact ⟨rfl, rfl, .refl _⟩
  have hlast : m.SameFonts (i.readPageAt offset).2.machine := by
    obtain he | ⟨err, e, hs, he⟩ := hend <;> rw [he]
    · exact .refl m
    · exact Machine.sameFonts_of_failure hs
  rw [hlast.fonts] at hk
  have hbegin : i.machine.SameFonts { i.machine with cursor := c, phase := .betweenPages } := ⟨rfl, rfl, .refl _⟩
  exact hbegin.trans ((hr.sameFonts hk).trans hlast)

end Interpreter

end Dvi
