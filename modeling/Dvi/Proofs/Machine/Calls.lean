import Dvi.Proofs.Machine.SetUp

/-!
# Errors that end the reading

An interpreter is called for one command, for all that follow, or for one page. An error ends the reading, unless the
call fails before it comes to the page: such an error is reported and not remembered.

* `Interpreter.Call`, `Interpreter.calls`: calls one after the other, with their answers;
* `Interpreter.Escapes`: a call whose error is not remembered;
* `Interpreter.failed_of_run`, `Interpreter.failed_of_runPage`: after an error in a command the interpreter has failed;
* **`Interpreter.failed_iff_of_call_error`**: any other error ends the reading for good.
-/

namespace Dvi

namespace Interpreter

/-! ## Calls -/

/-- What an interpreter can be called for. -/
inductive Call where
  | step
  | run
  | page (offset : Nat)
  deriving DecidableEq, Repr

namespace Call

/-- The call asks for a page. -/
def isPage : Call → Bool
  | .page _ => true
  | _ => false

/-- The answer to a call for which nothing is done: only a step tells whether there may be more. -/
def idleAnswer : Call → Option Bool
  | .step => some false
  | _ => none

end Call

variable {σ δ : Type} [FontSource σ] [Device δ]

/-- Calls an interpreter. -/
def call (i : Interpreter σ δ) : Call → Except Error (Option Bool) × Interpreter σ δ
  | .step => (i.step.1.map some, i.step.2)
  | .run => (i.run.1.map fun _ => none, i.run.2)
  | .page offset => ((i.interpretPage offset).1.map fun _ => none, (i.interpretPage offset).2)

/-- Calls an interpreter several times, whatever the answers. -/
def calls (i : Interpreter σ δ) : List Call → List (Except Error (Option Bool)) × Interpreter σ δ
  | [] => ([], i)
  | c :: cs => ((i.call c).1 :: ((i.call c).2.calls cs).1, ((i.call c).2.calls cs).2)

/-- A call for a page fails before it comes to the page: the end of the stream is wanted and is not found, or the
offset lies outside of the stream. -/
def Escapes (i : Interpreter σ δ) : Call → Prop
  | .page offset => i.readPreamble.1 = .ok () ∧ (i.MissesEnd ∨ i.machine.cursor.data.size < offset)
  | _ => False

/-! ## Where errors lead -/

theorem failed_of_step {i j : Interpreter σ δ} {err : Error} (h : i.step = (.error err, j)) :
    j.machine.phase = .failed := by
  obtain ⟨e, hs, rfl⟩ := exists_machine_step_of_failure h
  exact Machine.failed_of_step hs

theorem failed_of_run {i j : Interpreter σ δ} {err : Error} (h : i.run = (.error err, j)) :
    j.machine.phase = .failed := by
  obtain ⟨l, m, _, ⟨_, he⟩ | ⟨err', e, hs, he⟩⟩ := i.exists_runs <;> rw [h] at he <;> cases he
  exact Machine.failed_of_step hs

theorem failed_of_runPage {i j : Interpreter σ δ} {err : Error} (h : i.runPage = (.error err, j)) :
    j.machine.phase = .failed := by
  rcases hs : i.step with ⟨err' | _ | _, i'⟩
  · rw [runPage_of_failure hs] at h
    cases h
    exact failed_of_step hs
  · rw [runPage] at h
    split at h <;> rename_i e <;> rw [hs] at e <;> cases e
    cases h
  · rw [runPage_of_step hs] at h
    split at h
    · cases h
    · have hlt := remaining_lt_of_step hs
      exact failed_of_runPage h
termination_by i.machine.cursor.remaining

variable {i j : Interpreter σ δ} {err : Error}

/-! ### Before a page -/

theorem failed_of_readPreamble (h : i.readPreamble = (.error err, j)) : j.machine.phase = .failed := by
  unfold readPreamble at h
  split at h
  · split at h <;> rename_i hs
    · cases h
    · cases h
      exact failed_of_step hs
  · cases h

theorem failed_iff_of_readPreamble (h : i.readPreamble = (.ok (), j)) :
    j.machine.phase = .failed ↔ i.machine.phase = .failed := by
  unfold readPreamble at h
  split at h <;> rename_i hp
  · split at h <;> rename_i hs <;> cases h
    obtain ⟨x, hx, _⟩ := exists_does_of_step (by simp [hp, Phase.isFinal]) hs
    simp [hp, hx.ne_failed]
  · cases h
    exact .rfl

theorem of_readPageAt_error {offset : Nat} (h : i.readPageAt offset = (.error err, j)) :
    (i.machine.cursor.data.size < offset ∧ j = i) ∨
      (offset ≤ i.machine.cursor.data.size ∧ j.machine.phase = .failed) := by
  unfold readPageAt Cursor.seek at h
  split at h <;> rename_i hseek <;> split at hseek <;> rename_i hsize <;> cases hseek
  · cases h
    exact .inl ⟨Nat.lt_of_not_le hsize, rfl⟩
  · refine .inr ⟨hsize, ?_⟩
    dsimp only at h
    split at h
    · exact failed_of_runPage h
    · cases h
      rfl

theorem failed_iff_of_interpretPage_error {offset : Nat} (h : i.interpretPage offset = (.error err, j)) :
    j.machine.phase = .failed ↔ i.machine.phase = .failed ∨ ¬ i.Escapes (.page offset) := by
  have htried := i.triedPreamble
  unfold interpretPage at h
  rcases hpre : i.readPreamble with ⟨e | _, i₁⟩ <;> simp only [hpre] at h htried
  · cases h
    simp [Escapes, hpre, failed_of_readPreamble hpre]
  have hmisses : i.MissesEnd ↔ i₁.MissesEnd := by
    simp only [MissesEnd, htried.randomAccess, htried.undrawn.data]
  have hphase := i₁.phase_readTrailer
  have hdata := i₁.undrawn_readTrailer.data.trans htried.undrawn.data
  simp only [Escapes, hpre, true_and, hmisses, i₁.missesEnd_iff, ← failed_iff_of_readPreamble hpre]
  rcases htr : i₁.readTrailer with ⟨e | _, i₂⟩ <;> simp only [htr] at h hphase hdata
  · cases h
    simp [hphase]
  · -- the end of the stream is there, so only the offset matters
    obtain ⟨hsize, rfl⟩ | ⟨hsize, hj⟩ := of_readPageAt_error h <;> rw [hdata] at hsize
    · simp [hphase, hsize]
    · simp [hj, hsize]

/-! ## After an error -/

/-- A final interpreter does nothing unless it is called for a page. -/
theorem call_of_isFinal (h : i.machine.phase.isFinal = true) {c : Call} (hc : c.isPage = false) :
    i.call c = (.ok c.idleAnswer, i) := by
  have hs := step_of_isFinal h
  cases c with
  | step => simp only [call, hs]; rfl
  | run => simp only [call, run_of_last_step hs]; rfl
  | page offset => cases hc

theorem calls_of_isFinal (h : i.machine.phase.isFinal = true) {cs : List Call} (hcs : ∀ c ∈ cs, c.isPage = false) :
    i.calls cs = (cs.map fun c => .ok c.idleAnswer, i) := by
  induction cs with
  | nil => rfl
  | cons c cs ih =>
    have hc := call_of_isFinal h (hcs c List.mem_cons_self)
    have ih := ih fun c hc => hcs c (List.mem_cons_of_mem _ hc)
    simp only [calls, hc, ih, List.map_cons]

/-- **An error ends the reading, unless the call fails before it comes to a page**: the interpreter has failed, and
until it is called for a page nothing changes any more. -/
theorem failed_iff_of_call_error {c : Call} (h : i.call c = (.error err, j)) :
    (j.machine.phase = .failed ↔ i.machine.phase = .failed ∨ ¬ i.Escapes c) ∧
      (j.machine.phase = .failed → ∀ cs : List Call, (∀ c ∈ cs, c.isPage = false) →
        j.calls cs = (cs.map fun c => .ok c.idleAnswer, j)) := by
  refine ⟨?_, fun hj cs hcs => calls_of_isFinal (by rw [hj]; rfl) hcs⟩
  cases c with
  | step =>
    rcases hs : i.step with ⟨e | more, k⟩ <;> simp only [call, hs] at h <;> cases h
    simp [failed_of_step hs, Escapes]
  | run =>
    rcases hr : i.run with ⟨e | _, k⟩ <;> simp only [call, hr] at h <;> cases h
    simp [failed_of_run hr, Escapes]
  | page offset =>
    rcases hp : i.interpretPage offset with ⟨e | _, k⟩ <;> simp only [call, hp] at h <;> cases h
    exact failed_iff_of_interpretPage_error hp

end Interpreter

/-- A preamble, and behind it only commands that do nothing. -/
def preambleOnly : ByteArray :=
  let bytes := [247, 2, 1, 131, 146, 192, 28, 59, 0, 0, 0, 0, 3, 232, 0] ++ List.replicate 6 138
  ⟨bytes.toArray⟩

namespace Interpreter

/-- A run ends where the bytes do, and then nothing is read any more. -/
theorem failed_of_run_preambleOnly :
    let i := Interpreter.start preambleOnly NoFonts.mk ({} : PageCollector)
    (i.call .run).1 = .error (.truncated ⟨21, 1, 0⟩ none) ∧ ¬ i.Escapes .run ∧
      (i.call .run).2.machine.phase = .failed ∧
      (i.call .run).2.calls [.step, .run, .step] = ([.ok (some false), .ok none, .ok (some false)], (i.call .run).2) := by
  intro i
  have hr : (i.call .run).1 = .error (.truncated ⟨21, 1, 0⟩ none) := by decide +kernel
  have hescapes : ¬ i.Escapes .run := id
  obtain ⟨hphase, hcalls⟩ := failed_iff_of_call_error (i := i) (j := (i.call .run).2) (Prod.ext hr rfl)
  have hfailed := hphase.2 (.inr hescapes)
  exact ⟨hr, hescapes, hfailed, hcalls hfailed [.step, .run, .step] (by decide)⟩

/-- There is no page in the stream. The call for one reports so, and the next step goes on behind the preamble. -/
theorem not_failed_of_page_preambleOnly :
    let i := Interpreter.start preambleOnly NoFonts.mk ({} : PageCollector)
    let j := (i.call (.page 0)).2
    (i.call (.page 0)).1 = .error (.malformedHeader ⟨15, 138⟩) ∧ j.machine.phase = .betweenPages ∧
      (j.call .step).1 = .ok (some true) ∧ j.machine.cursor.pos = 15 ∧ (j.call .step).2.machine.cursor.pos = 16 := by
  decide +kernel

end Interpreter

end Dvi
