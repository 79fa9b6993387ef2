import Dvi.Proofs.Machine.Summary
import Dvi.Proofs.Machine.Truncation
import Mathlib.Data.List.Forall2

/-!
# Sources that are shared

A source that answers by name may be in use elsewhere: before, or all the while.

* `Interpreter.withSource`: an interpreter that asks another source from now on.
  **`Interpreter.run_withSource`**: if that answers alike, it comes to the same end;
  **`interpretPartial_eq_of_answersAlike`**: so sources that answer alike give the same document and the same error;
* `Reader`, `Pool`: interpreters of several streams that ask one source and take their steps in any order.
  `Reader.Due`: what will come of a reader; **`Pool.due_steps`**: no schedule changes it;
  `Pool.exists_results?`: and it does come, if nobody is left waiting.
-/

namespace Dvi

variable {σ : Type} [FontSource σ]

/-! ## Sources in use -/

theorem Asked.trans {s₁ s₂ s₃ : σ} (h : Asked s₁ s₂) (h' : Asked s₂ s₃) : Asked s₁ s₃ := by
  induction h' with
  | nil => exact h
  | snoc _ f ih => exact ih.snoc f

theorem AnswersByName.asked {s s' : σ} {answer : String → ResolvedFont} (h : AnswersByName s answer)
    (hs : Asked s s') : AnswersByName s' answer :=
  fun s₂ hs₂ => h s₂ (hs.trans hs₂)

namespace Interpreter

variable {i j : Interpreter σ PageCollector}

/-- The interpreter with another source to ask. -/
def withSource (i : Interpreter σ PageCollector) (source : σ) : Interpreter σ PageCollector :=
  { i with machine := { i.machine with source } }

/-- **With a source that answers alike, an interpreter comes to the same end.** -/
theorem run_withSource {source : σ} (hs : AnswersAlike i.machine.source source) :
    (i.withSource source).run.1 = i.run.1 ∧ (i.withSource source).run.2.document = i.run.2.document := by
  -- both are at the same place of the same stream all the time
  let R (i j : Interpreter σ PageCollector) : Prop := i.Matches j ∧ j.machine.cursor = i.machine.cursor
  have hstart : R i (i.withSource source) :=
    ⟨⟨⟨⟨⟨rfl, rfl, hs⟩, rfl, fun _ => rfl⟩, rfl, rfl, rfl, rfl⟩, .refl _⟩, rfl⟩
  refine run_eq_of_simulation (R := R) ?_ (fun h => h.1.toReadsAlike) ?_ hstart
  · rintro i j x m ⟨hm, hc⟩ hx
    obtain ⟨x', r, hx', hm'⟩ := hm.does hx
    refine ⟨x', r, hx', hm', hm'.cursor.eq ?_⟩
    simp only [advance, hx'.data, hx.data, hc]
  · rintro i j err ⟨hm, hc⟩ - hf
    exact hm.alike.fails hm.cursor (fun _ => hm.expectedId) hf (.inr hc)

theorem asked_step (i : Interpreter σ PageCollector) : Asked i.machine.source i.step.2.machine.source := by
  by_cases hi : i.machine.phase.isFinal = true
  · rw [step_of_isFinal hi]
    exact .nil
  rcases hs : i.step with ⟨_ | _, j⟩
  · obtain ⟨e, he, rfl⟩ := exists_machine_step_of_failure hs
    obtain ⟨-, -, _, _, -, hm⟩ := Machine.of_step_eq_error he
    rw [hm]
    exact .nil
  · obtain ⟨x, hx, -⟩ := exists_does_of_step (by simpa using hi) hs
    exact hx.asked .nil

end Interpreter

/-- **Sources that answer alike give the same document and the same error**, if any. -/
theorem interpretPartial_eq_of_answersAlike {source source' : σ} (hs : AnswersAlike source source')
    (data : ByteArray) : (interpretPartial data source').result = (interpretPartial data source).result ∧
      (interpretPartial data source').document = (interpretPartial data source).document :=
  Interpreter.run_withSource (i := .start data source {}) hs

theorem asked_interpretPartial (data : ByteArray) (source : σ) :
    Asked source (interpretPartial data source).source := by
  obtain ⟨h, m, hr, hend⟩ := exists_interpretPartial data source
  have hasked : Asked source m.source := hr.summarizes.source
  obtain ⟨-, he⟩ | ⟨err, e, hs, he⟩ := hend <;> rw [he]
  · exact hasked
  · obtain ⟨_, _, c, site, _, hfailed⟩ := Machine.of_step_eq_error hs
    rw [hfailed]
    exact hasked

/-! ## Readers -/

/-- Somebody who reads one of several streams: an interpreter under way, or what came of it. -/
inductive Reader (σ : Type) where
  | reading (i : Interpreter σ PageCollector)
  | done (result : Except Error Document)

/-- What comes of an interpreter that reads on to the end. -/
def Interpreter.outcome (i : Interpreter σ PageCollector) : Except Error Document :=
  Interpretation.complete ⟨i.run.1, i.run.2⟩

namespace Reader

/-- A step of a reader, which asks the source at hand. -/
def step (source : σ) : Reader σ → Reader σ × σ
  | .done r => (.done r, source)
  | .reading i =>
    match (i.withSource source).step with
    | (.ok true, j) => (.reading j, j.machine.source)
    | (.ok false, j) => (.done (.ok j.document), j.machine.source)
    | (.error e, j) => (.done (.error e), j.machine.source)

/-- What came of a reader that is done. -/
def result? : Reader σ → Option (Except Error Document)
  | .done r => some r
  | .reading _ => none

/-- More steps than this a reader does not take. -/
def size : Reader σ → Nat
  | .reading i => i.machine.cursor.remaining + 1
  | .done _ => 0

omit [FontSource σ] in
theorem exists_result?_of_size_eq_zero {reader : Reader σ} (h : reader.size = 0) : ∃ r, reader.result? = some r := by
  cases reader with
  | reading => cases h
  | done r => exact ⟨r, rfl⟩

theorem size_step (source : σ) (reader : Reader σ) : (reader.step source).1.size ≤ reader.size - 1 := by
  cases reader with
  | done => exact Nat.zero_le _
  | reading i =>
    rcases hstep : (i.withSource source).step with ⟨_ | _ | _, j⟩ <;> simp only [step, hstep, size]
    · exact Nat.zero_le _
    · exact Nat.zero_le _
    · have hlt := Interpreter.remaining_lt_of_step hstep
      exact hlt

/-- The reader will come to a result, if its source answers so. -/
inductive Due (answer : String → ResolvedFont) : Except Error Document → Reader σ → Prop
  | reading {i : Interpreter σ PageCollector} (hs : AnswersByName i.machine.source answer) :
    Due answer i.outcome (.reading i)
  | done (r : Except Error Document) : Due answer r (.done r)

variable {answer : String → ResolvedFont}

/-- **A step changes neither what will come of a reader nor what the source answers.** -/
theorem Due.step {r : Except Error Document} {reader : Reader σ} (h : Due answer r reader) {source : σ}
    (hs : AnswersByName source answer) :
    Due answer r (reader.step source).1 ∧ AnswersByName (reader.step source).2 answer := by
  cases h with
  | done => exact ⟨.done r, hs⟩
  | @reading i hi =>
    obtain ⟨hresult, hdocument⟩ := i.run_withSource (hi.alike hs)
    have houtcome : i.outcome = (i.withSource source).outcome := by
      simp only [Interpreter.outcome, Interpretation.complete, Interpretation.document, hresult, hdocument]
    have hasked : AnswersByName (i.withSource source).step.2.machine.source answer :=
      hs.asked (i.withSource source).asked_step
    rw [houtcome]
    rcases hstep : (i.withSource source).step with ⟨_ | more, j⟩
    · rw [hstep] at hasked
      simp only [Reader.step, hstep, Interpreter.outcome, Interpreter.run_of_failure hstep]
      exact ⟨.done _, hasked⟩
    rw [hstep] at hasked
    cases more
    · simp only [Reader.step, hstep, Interpreter.outcome, Interpreter.run_of_last_step hstep]
      exact ⟨.done _, hasked⟩
    · have hrun : (i.withSource source).outcome = j.outcome := by
        simp only [Interpreter.outcome, Interpreter.run_of_step hstep]
      simp only [Reader.step, hstep, hrun]
      exact ⟨.reading hasked, hasked⟩

end Reader

/-- Readers of several streams with one source. -/
structure Pool (σ : Type) where
  source : σ
  readers : List (Reader σ)

namespace Pool

/-- One of the readers takes a step, if there is one of that number. -/
def step (p : Pool σ) (k : Nat) : Pool σ :=
  match p.readers[k]? with
  | none => p
  | some reader => { source := (reader.step p.source).2, readers := p.readers.set k (reader.step p.source).1 }

/-- The readers take their steps as a schedule says. -/
def steps (p : Pool σ) (schedule : List Nat) : Pool σ := schedule.foldl step p

/-- What came of the readers, if all are done. -/
def results? (p : Pool σ) : Option (List (Except Error Document)) := p.readers.mapM Reader.result?

/-- What will come of the readers. -/
structure Due (p : Pool σ) (answer : String → ResolvedFont) (results : List (Except Error Document)) : Prop where
  source : AnswersByName p.source answer
  readers : List.Forall₂ (Reader.Due answer) results p.readers

variable {p : Pool σ} {answer : String → ResolvedFont} {results : List (Except Error Document)}

theorem Due.step (h : p.Due answer results) (k : Nat) : (p.step k).Due answer results := by
  unfold Pool.step
  split
  · exact h
  · rename_i reader hk
    obtain ⟨hlt, rfl⟩ := List.getElem?_eq_some_iff.1 hk
    have hlength := h.readers.length_eq
    have hdue := h.readers.get (hlength ▸ hlt) hlt
    obtain ⟨hreader, hsource⟩ := hdue.step h.source
    refine ⟨hsource, List.forall₂_iff_get.2 ⟨by simpa using hlength, fun n h₁ h₂ => ?_⟩⟩
    simp only [List.get_eq_getElem, List.getElem_set]
    split
    · rename_i hn
      subst hn
      exact hreader
    · exact h.readers.get h₁ (hlength ▸ h₁)

/-- **Whatever the schedule, the same will come of the readers.** -/
theorem due_steps (h : p.Due answer results) (schedule : List Nat) : (p.steps schedule).Due answer results := by
  induction schedule generalizing p with
  | nil => exact h
  | cons k schedule ih => exact ih (h.step k)

/-- More steps than this a reader does not take. -/
def size (p : Pool σ) (k : Nat) : Nat := (p.readers[k]?.map Reader.size).getD 0

theorem size_step (p : Pool σ) (j k : Nat) : (p.step j).size k ≤ p.size k - if j = k then 1 else 0 := by
  unfold Pool.step size
  split
  · rename_i hj
    split
    · rename_i hjk
      rw [← hjk, hj]
      exact Nat.zero_le _
    · exact Nat.le_refl _
  · rename_i reader hj
    obtain ⟨hlt, -⟩ := List.getElem?_eq_some_iff.1 hj
    rw [List.getElem?_set, if_pos hlt]
    split
    · rename_i hjk
      rw [← hjk, hj]
      exact Reader.size_step _ _
    · exact Nat.le_refl _

theorem size_steps (p : Pool σ) (schedule : List Nat) (k : Nat) :
    (p.steps schedule).size k ≤ p.size k - schedule.count k := by
  induction schedule generalizing p with
  | nil => exact Nat.le_refl _
  | cons j schedule ih =>
    have hj := p.size_step j k
    have hschedule := ih (p.step j)
    rw [steps, List.foldl_cons, ← steps, List.count_cons]
    simp only [beq_iff_eq]
    omega

/-- **All readers are done when each of them has had its steps.** -/
theorem exists_results? {schedule : List Nat} (h : ∀ k, p.size k ≤ schedule.count k) :
    ∃ results, (p.steps schedule).results? = some results := by
  have hsize : ∀ k, (p.steps schedule).size k = 0 := fun k => by
    have hk := p.size_steps schedule k
    have hcount := h k
    omega
  have hdone : ∀ reader ∈ (p.steps schedule).readers, ∃ r, reader.result? = some r := fun reader hreader => by
    obtain ⟨k, hk, rfl⟩ := List.getElem_of_mem hreader
    have hzero := hsize k
    rw [size, List.getElem?_eq_getElem hk] at hzero
    exact Reader.exists_result?_of_size_eq_zero hzero
  rw [results?]
  generalize (p.steps schedule).readers = readers at hdone
  induction readers with
  | nil => exact ⟨[], rfl⟩
  | cons reader readers ih =>
    obtain ⟨r, hr⟩ := hdone reader List.mem_cons_self
    obtain ⟨results, hresults⟩ := ih fun reader' h' => hdone reader' (List.mem_cons_of_mem _ h')
    exact ⟨r :: results, by simp [List.mapM_cons, hr, hresults]⟩

theorem Due.results?_eq (h : p.Due answer results) {found : List (Except Error Document)}
    (hf : p.results? = some found) : found = results := by
  rw [results?] at hf
  have hreaders := h.readers
  generalize p.readers = readers at hf hreaders
  clear h
  induction hreaders generalizing found with
  | nil =>
    cases hf
    rfl
  | @cons r reader results readers hr _ ih =>
    cases hr with
    | reading => cases hf
    | done =>
      simp only [List.mapM_cons, Reader.result?, Option.bind_eq_bind, Option.bind_some, Option.bind_eq_some_iff,
        Option.pure_def, Option.some.injEq] at hf
      obtain ⟨found, hfound, rfl⟩ := hf
      rw [ih hfound]

end Pool

end Dvi
