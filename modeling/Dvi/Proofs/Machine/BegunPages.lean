import Dvi.Proofs.Machine.Calls
import Dvi.Proofs.Machine.Devices
import Dvi.Proofs.Machine.SinglePages
import Mathlib.Data.List.Forall2
import Mathlib.Data.List.Induction

/-!
# Pages that are begun

A call for a page may fail on the page. What was drawn up to there stays with the collector, but only until the next
page is begun.

* `Attempt`: a page that a call has begun, as far as it was drawn; `Attempt.MadeAt`: where and how it was drawn;
* `Interpreter.InStep.readPreamble`, `Interpreter.InStep.readTrailer`: what comes before a page does not depend on the
  device;
* **`Interpreter.attempt_spec`**: what one call leaves with the collector;
* **`Interpreter.pages_of_page_calls`**: after any calls the document has the pages that were ended, and the one begun
  last. So it has all that were begun if and only if all but the last were ended.
-/

namespace Dvi

/-- A page that was begun, as far as it was drawn, and whether it was ended. -/
structure Attempt where
  page : Page
  ended : Bool
  deriving DecidableEq

/-- The page was begun at an offset of a stream and drawn up to its end, or up to a step that fails. -/
def Attempt.MadeAt (σ : Type) [FontSource σ] (data : ByteArray) (offset : Nat) (t : Attempt) : Prop :=
  ∃ b m : Machine σ, b.Draws t.page m ∧ b.cursor.data = data ∧ t.page.offset = offset ∧
    if t.ended then ∃ x m', m.Does x m' ∧ x.command = .endPage else ∃ err e, m.step = (.error err, e)

namespace PageCollector

/-- The collector after an attempt, or after a call that begins no page. -/
def add (c : PageCollector) : Option Attempt → PageCollector
  | none => c
  | some ⟨p, true⟩ => ⟨p :: c.closed, none⟩
  | some ⟨p, false⟩ => ⟨c.closed, some p⟩

/-- The attempt that has left so much with a collector that held nothing. -/
def attempt? : PageCollector → Option Attempt
  | ⟨p :: _, _⟩ => some ⟨p, true⟩
  | ⟨[], some p⟩ => some ⟨p, false⟩
  | ⟨[], none⟩ => none

theorem attempt?_add (a : Option Attempt) : (({} : PageCollector).add a).attempt? = a := by
  rcases a with _ | ⟨p, _ | _⟩ <;> rfl

/-- **After any attempts the pages that were ended are there, and the one begun last.** -/
theorem foldl_add (c : PageCollector) (attempts : List (Option Attempt)) :
    let begun := attempts.filterMap id
    attempts.foldl add c = {
      closed := ((begun.filter (·.ended)).map (·.page)).reverse ++ c.closed
      current := match begun.getLast? with
        | none => c.current
        | some t => if t.ended then none else some t.page } := by
  induction attempts using List.reverseRecOn with
  | nil => rfl
  | append_singleton as a ih =>
    dsimp only at ih ⊢
    rw [List.foldl_concat, ih, List.filterMap_append]
    rcases a with _ | ⟨p, _ | _⟩ <;> simp [add]

end PageCollector

/-- All that were begun are there if and only if all but the last were ended. -/
theorem Attempt.map_page_eq_iff (begun : List Attempt) :
    (begun.filter (·.ended) ++ (begun.getLast?.filter (!·.ended)).toList).map (·.page) = begun.map (·.page) ↔
      ∀ t ∈ begun.dropLast, t.ended = true := by
  obtain rfl | ⟨l, t, rfl⟩ := begun.eq_nil_or_concat
  · simp
  have hlast : (l ++ [t]).filter (·.ended) ++ ((l ++ [t]).getLast?.filter (!·.ended)).toList =
      l.filter (·.ended) ++ [t] := by
    rcases t with ⟨p, _ | _⟩ <;> simp
  rw [List.concat_eq_append, hlast, List.dropLast_concat, List.map_append, List.map_append, List.append_left_inj]
  refine ⟨fun h => ?_, fun h => by rw [List.filter_eq_self.2 h]⟩
  have hlength := congrArg List.length h
  rw [List.length_map, List.length_map] at hlength
  exact List.length_filter_eq_length_iff.1 hlength

/-! ## Before a page -/

namespace Interpreter

variable {σ : Type} [FontSource σ]

namespace InStep

variable {δ δ' : Type} [Device δ] [Device δ'] {i : Interpreter σ δ} {j : Interpreter σ δ'}

omit [FontSource σ] in
theorem apply (h : InStep i j) (e : Effect σ) : InStep (i.apply e) (j.apply e) where
  machine := rfl
  log := by rw [apply_eq, apply_eq, h.log]

omit [FontSource σ] [Device δ] [Device δ'] in
theorem searched (h : InStep i j) (c : Cursor) : InStep (i.searched c) (j.searched c) where
  machine := by simp only [Interpreter.searched, h.machine]
  log := by simp only [Interpreter.searched, Interpreter.warn, h.machine, h.log]

theorem defineFonts (h : InStep i j) (fonts : List FontDefinition) :
    InStep (i.defineFonts fonts) (j.defineFonts fonts) := by
  induction fonts generalizing i j with
  | nil => exact h
  | cons f fs ih =>
    refine ih (?_ : InStep (i.apply (i.machine.defineFont f)) (j.apply (j.machine.defineFont f)))
    rw [← h.machine]
    exact h.apply _

theorem readPreamble (h : InStep i j) :
    i.readPreamble.1 = j.readPreamble.1 ∧ InStep i.readPreamble.2 j.readPreamble.2 := by
  have hresult := h.result
  have hstep := h.step
  unfold Interpreter.readPreamble
  rw [← h.machine]
  split
  · generalize i.step = x at hresult hstep ⊢
    generalize j.step = y at hresult hstep ⊢
    obtain ⟨r, i'⟩ := x
    obtain ⟨r', j'⟩ := y
    obtain rfl : r = r' := hresult
    cases r <;> exact ⟨rfl, hstep⟩
  · exact ⟨rfl, h⟩

theorem readTrailer (h : InStep i j) :
    i.readTrailer.1 = j.readTrailer.1 ∧ InStep i.readTrailer.2 j.readTrailer.2 := by
  rcases hr : i.machine.randomAccess with _ | _
  · rw [readTrailer_eq hr, readTrailer_eq (h.machine ▸ hr), ← h.machine]
    rcases Trailer.locate i.machine.cursor with ⟨t, c⟩ | ⟨e, c⟩ <;> dsimp only
    · have hfonts := (h.searched c).defineFonts t.fonts
      exact ⟨rfl, congrArg (fun m : Machine σ => { m with postamble := m.postamble <|> some t.postamble })
        hfonts.machine, hfonts.log⟩
    · exact ⟨rfl, h.searched c⟩
  · have hi : i.readTrailer = (.ok (), i) := if_pos hr
    have hj : j.readTrailer = (.ok (), j) := if_pos (h.machine ▸ hr)
    rw [hi, hj]
    exact ⟨rfl, h⟩

end InStep

section SetUp

variable {δ δ' : Type} [Device δ] [Device δ']

/-- What a call does before the page: it reads the preamble and the end of the stream. -/
def setUp (i : Interpreter σ δ) : Except Error Unit × Interpreter σ δ :=
  match i.readPreamble with
  | (.error e, i) => (.error e, i)
  | (.ok (), i) => i.readTrailer

theorem interpretPage_eq (i : Interpreter σ δ) (offset : Nat) : i.interpretPage offset =
    match i.setUp with
    | (.error e, i) => (.error e, i)
    | (.ok (), i) => i.readPageAt offset := by
  unfold interpretPage setUp
  rcases i.readPreamble with ⟨_ | _, _⟩ <;> rfl

theorem undrawn_setUp (i : Interpreter σ δ) : i.Undrawn i.setUp.2 := by
  have h := i.undrawn_readPreamble
  unfold setUp
  rcases hp : i.readPreamble with ⟨_ | _, j⟩ <;> rw [hp] at h
  · exact h
  · exact h.trans j.undrawn_readTrailer

theorem InStep.setUp {i : Interpreter σ δ} {j : Interpreter σ δ'} (h : InStep i j) :
    i.setUp.1 = j.setUp.1 ∧ InStep i.setUp.2 j.setUp.2 := by
  obtain ⟨hresult, hafter⟩ := h.readPreamble
  unfold Interpreter.setUp
  rcases hi : i.readPreamble with ⟨r, i₁⟩
  rcases hj : j.readPreamble with ⟨r', j₁⟩
  rw [hi, hj] at hresult hafter
  obtain rfl : r = r' := hresult
  rcases r with _ | _
  · exact ⟨rfl, hafter⟩
  · exact hafter.readTrailer

end SetUp

/-! ## One call -/

theorem exists_attempt_of_readPageAt (m : Machine σ) (offset : Nat) : ∃ a : Option Attempt,
    (∀ t ∈ a, t.MadeAt σ m.cursor.data offset) ∧ ∀ i : Interpreter σ PageCollector, i.machine = m →
      (i.readPageAt offset).2.device = i.device.add a ∧ (i.readPageAt offset).1.isOk = a.any (·.ended) := by
  unfold readPageAt
  rcases hseek : m.cursor.seek offset with _ | c
  · refine ⟨none, nofun, ?_⟩
    rintro i rfl
    simp only [hseek]
    exact ⟨rfl, rfl⟩
  obtain ⟨hdata, hpos⟩ := Cursor.of_seek hseek
  by_cases hbop : Opcode.ofByte (c.peek.getD 0) = .beginPage
  · -- the page is drawn in the same way whatever else the interpreter has
    obtain ⟨err, e, hs⟩ | ⟨p, m₁, hp, ⟨x, m₂, hx, hc⟩ | ⟨err, e, hs⟩⟩ :=
      ({ m with cursor := c, phase := .betweenPages } : Machine σ).draws_cases rfl hbop
    · refine ⟨none, nofun, ?_⟩
      rintro i rfl
      simp only [hseek, if_pos hbop]
      rw [runPage_of_failure (step_of_failure hs)]
      exact ⟨rfl, rfl⟩
    · refine ⟨some ⟨p, true⟩, ?_, ?_⟩
      · rintro _ ⟨⟩
        exact ⟨_, m₁, hp, hdata, hp.offset.trans hpos, x, m₂, hx, hc⟩
      · rintro i rfl
        simp only [hseek, if_pos hbop]
        obtain ⟨log, hrun⟩ := exists_runPage_of_endPage
          (i := { i with machine := { i.machine with cursor := c, phase := .betweenPages } }) hp hx hc
        rw [hrun]
        exact ⟨rfl, rfl⟩
    · refine ⟨some ⟨p, false⟩, ?_, ?_⟩
      · rintro _ ⟨⟩
        exact ⟨_, m₁, hp, hdata, hp.offset.trans hpos, err, e, hs⟩
      · rintro i rfl
        simp only [hseek, if_pos hbop]
        obtain ⟨log, hrun⟩ := exists_runPage_of_failure
          (i := { i with machine := { i.machine with cursor := c, phase := .betweenPages } }) hp hs
        rw [hrun]
        exact ⟨rfl, rfl⟩
  · refine ⟨none, nofun, ?_⟩
    rintro i rfl
    simp only [hseek, if_neg hbop]
    exact ⟨rfl, rfl⟩

theorem exists_attempt (i : Interpreter σ PageCollector) (offset : Nat) : ∃ a : Option Attempt,
    (∀ t ∈ a, t.MadeAt σ i.machine.cursor.data offset) ∧ ∀ j : Interpreter σ PageCollector, InStep i j →
      (j.interpretPage offset).2.device = j.device.add a ∧ (j.interpretPage offset).1.isOk = a.any (·.ended) := by
  have hdata := i.undrawn_setUp.data
  rcases hi : i.setUp with ⟨err | _, i₁⟩ <;> rw [hi] at hdata
  · refine ⟨none, nofun, fun j h => ?_⟩
    obtain ⟨hresult, -⟩ := h.setUp
    have hdevice := j.undrawn_setUp.device
    rw [interpretPage_eq]
    rcases hj : j.setUp with ⟨r, j₁⟩
    rw [hi, hj] at hresult
    rw [hj] at hdevice
    obtain rfl : .error err = r := hresult
    exact ⟨hdevice, rfl⟩
  · obtain ⟨a, hmade, ha⟩ := exists_attempt_of_readPageAt i₁.machine offset
    refine ⟨a, hdata ▸ hmade, fun j h => ?_⟩
    obtain ⟨hresult, hafter⟩ := h.setUp
    have hdevice := j.undrawn_setUp.device
    rw [interpretPage_eq]
    rcases hj : j.setUp with ⟨r, j₁⟩
    rw [hi, hj] at hresult hafter
    rw [hj] at hdevice
    obtain rfl : .ok () = r := hresult
    rw [← hdevice]
    exact ha j₁ hafter.machine.symm

/-- The page that a call for the one at an offset begins. -/
def attempt? (i : Interpreter σ PageCollector) (offset : Nat) : Option Attempt :=
  ({ i with device := ({} : PageCollector) }.interpretPage offset).2.device.attempt?

/-- **What one call leaves**: the collector has the page in addition, or in the place of one that was not ended, and the
call succeeds if and only if a page is begun and ended. -/
theorem attempt_spec (i : Interpreter σ PageCollector) (offset : Nat) :
    (i.interpretPage offset).2.device = i.device.add (i.attempt? offset) ∧
      (i.interpretPage offset).1.isOk = (i.attempt? offset).any (·.ended) ∧
      ∀ t ∈ i.attempt? offset, t.MadeAt σ i.machine.cursor.data offset := by
  obtain ⟨a, hmade, ha⟩ := i.exists_attempt offset
  obtain rfl : i.attempt? offset = a := by
    rw [attempt?, (ha { i with device := ({} : PageCollector) } ⟨rfl, rfl⟩).1, PageCollector.attempt?_add]
  exact ⟨(ha i ⟨rfl, rfl⟩).1, (ha i ⟨rfl, rfl⟩).2, hmade⟩

theorem data_interpretPage (i : Interpreter σ PageCollector) (offset : Nat) :
    (i.interpretPage offset).2.machine.cursor.data = i.machine.cursor.data := by
  have hdata := i.undrawn_setUp.data
  rw [interpretPage_eq]
  rcases hi : i.setUp with ⟨err | _, i₁⟩ <;> rw [hi] at hdata
  · exact hdata
  refine Eq.trans ?_ hdata
  dsimp only
  obtain ⟨c, phase, hc, -, he⟩ | ⟨c, h, m, hc, hr, he | ⟨err, e, hs, he⟩⟩ := i₁.readPageAt_cases offset <;> rw [he]
  · exact hc
  · exact hr.data.trans hc
  · obtain ⟨_, _, c', site, hc', heq⟩ := Machine.of_step_eq_error hs
    rw [heq]
    exact hc'.trans (hr.data.trans hc)

/-! ## Any calls -/

/-- The pages that calls one after the other begin, with an entry for each call. -/
def attempts (i : Interpreter σ PageCollector) : List Nat → List (Option Attempt)
  | [] => []
  | offset :: offsets => i.attempt? offset :: (i.interpretPage offset).2.attempts offsets

theorem attempts_spec (i : Interpreter σ PageCollector) (offsets : List Nat) :
    (i.calls (offsets.map .page)).2.device = (i.attempts offsets).foldl PageCollector.add i.device ∧
      (i.calls (offsets.map .page)).1.map (·.isOk) = (i.attempts offsets).map (·.any (·.ended)) ∧
      List.Forall₂ (fun offset a => ∀ t ∈ a, t.MadeAt σ i.machine.cursor.data offset) offsets
        (i.attempts offsets) := by
  induction offsets generalizing i with
  | nil => exact ⟨rfl, rfl, .nil⟩
  | cons offset offsets ih =>
    obtain ⟨hdevice, hok, hmade⟩ := i.attempt_spec offset
    obtain ⟨hdevices, hoks, hmades⟩ := ih (i.interpretPage offset).2
    rw [data_interpretPage] at hmades
    refine ⟨?_, ?_, .cons hmade hmades⟩
    · rw [attempts, List.foldl_cons, ← hdevice]
      exact hdevices
    · have hfirst : ((i.interpretPage offset).1.map fun _ => (none : Option Bool)).isOk =
          (i.attempt? offset).any (·.ended) := by
        rw [← hok]
        rcases (i.interpretPage offset).1 with _ | _ <;> rfl
      exact congrArg₂ List.cons hfirst hoks

/-- **The document after any calls for pages** on one interpreter. A call succeeds if and only if it begins a page and
ends it. The document has the pages that were ended, in order, and behind them the one begun last, if that was not
ended; so it has all pages that were begun if and only if all but the last were ended. -/
theorem pages_of_page_calls (data : ByteArray) (source : σ) (offsets : List Nat) :
    let i := start data source ({} : PageCollector)
    let r := i.calls (offsets.map .page)
    let begun := (i.attempts offsets).filterMap id
    r.1.map (·.isOk) = (i.attempts offsets).map (·.any (·.ended)) ∧
      List.Forall₂ (fun offset a => ∀ t ∈ a, t.MadeAt σ data offset) offsets (i.attempts offsets) ∧
      r.2.document.pages = (begun.filter (·.ended) ++ (begun.getLast?.filter (!·.ended)).toList).map (·.page) ∧
      (r.2.document.pages = begun.map (·.page) ↔ ∀ t ∈ begun.dropLast, t.ended = true) := by
  intro i r begun
  obtain ⟨hdevice, hok, hmade⟩ := i.attempts_spec offsets
  have hpages : r.2.document.pages =
      (begun.filter (·.ended) ++ (begun.getLast?.filter (!·.ended)).toList).map (·.page) := by
    change r.2.device.pages = _
    rw [hdevice, PageCollector.foldl_add]
    simp only [PageCollector.pages, List.reverse_append, List.reverse_reverse, List.map_append]
    rcases begun.getLast? with _ | ⟨p, _ | _⟩ <;> rfl
  refine ⟨hok, hmade, hpages, ?_⟩
  rw [hpages]
  exact Attempt.map_page_eq_iff begun

end Interpreter

/-- The stream of two pages, with an undefined opcode in the place of the rule on the first one. -/
def twoPagesMarred : ByteArray := ⟨twoPages.data.set! 86 250⟩

/-- The first page is begun and not ended; the second one takes its place. -/
theorem Interpreter.document_lacks_page_twoPagesMarred :
    let i := Interpreter.start twoPagesMarred NoFonts.mk ({} : PageCollector)
    (i.calls [.page 32, .page 96]).1 = [.error (.malformedOpcode ⟨86, 250⟩), .ok none] ∧
      (i.attempts [32, 96]).map (·.map fun t => (t.page.offset, t.page.events.size, t.ended)) =
        [some (32, 2, false), some (96, 0, true)] ∧
      (i.calls [.page 32, .page 96]).2.document.pages.map (·.offset) = [96] ∧
      (i.calls [.page 32, .page 96]).2.document.pages ≠ ((i.attempts [32, 96]).filterMap id).map (·.page) := by
  decide +kernel

end Dvi
