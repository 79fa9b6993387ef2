import Dvi.Proofs.Machine.Failures

/-!
# Step after step

An interpreter that makes one step after the other executes its history, and stops where a step fails.

* `Interpreter.steps`: the interpreter after some steps, whatever they result in;
* **`Interpreter.exists_runs_of_steps`**: it has executed as much of the history, and has perhaps failed since;
* `Interpreter.log_steps`, `Interpreter.log_run`: the warnings raised are those of what was executed;
* **`Interpreter.exists_steps_of_run`**: reading all that follows is nothing but steps.
-/

namespace Dvi

theorem Machine.history_of_failure {σ : Type} [FontSource σ] {m : Machine σ} {err : Error} {e : Effect σ}
    (h : m.step = (.error err, e)) : m.history = [] := by
  rw [history]
  split <;> rename_i hnext
  · rfl
  · exact absurd (next?_eq_some_iff.1 hnext) (not_does_of_step_eq_error h)

theorem Machine.exists_runs_of_history {σ : Type} [FontSource σ] {m : Machine σ} {h t : List Executed} {x : Executed}
    (hh : m.history = h ++ x :: t) : ∃ m₁ m₂, m.Runs h m₁ ∧ m₁.Does x m₂ := by
  induction h generalizing m with
  | nil =>
    rw [history] at hh
    split at hh <;> cases hh
    exact ⟨m, _, .nil, next?_eq_some_iff.1 ‹_›⟩
  | cons y h ih =>
    rw [history] at hh
    split at hh
    · cases hh
    · rename_i z m' hnext
      obtain ⟨rfl, hrest⟩ := List.cons.inj hh
      obtain ⟨m₁, m₂, hr, hx⟩ := ih hrest
      exact ⟨m₁, m₂, hr.cons (next?_eq_some_iff.1 hnext), hx⟩

namespace Interpreter

variable {σ δ : Type} [FontSource σ] [Device δ]

/-- The interpreter after `n` steps, whatever they result in. -/
def steps (i : Interpreter σ δ) : Nat → Interpreter σ δ
  | 0 => i
  | n + 1 => (i.steps n).step.2

theorem steps_succ_eq (i : Interpreter σ δ) (n : Nat) : i.steps (n + 1) = i.step.2.steps n := by
  induction n with
  | zero => rfl
  | succ n ih => rw [steps, ih, steps]

/-- **After `n` steps the first `n` commands of the history are executed**, and if there are no more a step may have
failed. -/
theorem exists_runs_of_steps (i : Interpreter σ δ) (n : Nat) : ∃ m, i.machine.Runs (i.machine.history.take n) m ∧
    (i.steps n = i.advance (i.machine.history.take n) m ∨
      ∃ err e, m.step = (.error err, e) ∧ i.steps n = i.advance (i.machine.history.take n) e.machine) := by
  induction n with
  | zero => exact ⟨i.machine, .nil, .inl i.advance_nil.symm⟩
  | succ n ih =>
    obtain ⟨m, hr, hsteps⟩ := ih
    -- what the machine executes next is the next command of the history
    have hhistory : m.history = i.machine.history.drop n :=
      List.append_cancel_left (hr.history_eq.symm.trans (List.take_append_drop n _).symm)
    rw [List.take_add_one, ← List.head?_drop, ← hhistory, steps]
    obtain hsteps | ⟨err, e, hs, hsteps⟩ := hsteps <;> rw [hsteps]
    · by_cases hm : m.phase.isFinal = true
      · rw [Machine.history_of_isFinal hm, List.head?_nil, Option.toList_none, List.append_nil]
        exact ⟨m, hr, .inl (by rw [step_of_isFinal (i := i.advance _ m) hm])⟩
      rcases hs : m.step with ⟨err | more, e⟩
      · rw [Machine.history_of_failure hs, List.head?_nil, Option.toList_none, List.append_nil]
        exact ⟨m, hr, .inr ⟨err, e, hs, by rw [step_of_failure (i := i.advance _ m) hs]; rfl⟩⟩
      · obtain ⟨⟨site, command, hx⟩, -⟩ := (Machine.step_eq_ok_iff (by simpa using hm)).1 hs
        rw [Machine.history_of_does hx, List.head?_cons, Option.toList_some]
        refine ⟨e.machine, hr.snoc hx, .inl ?_⟩
        rw [advance_concat i _ _ m e.machine, step_of_does (i := i.advance _ m) hx]
    · have hfinal : e.machine.phase.isFinal = true := by
        rw [Machine.failed_of_step hs]
        rfl
      rw [Machine.history_of_failure hs, List.head?_nil, Option.toList_none, List.append_nil]
      exact ⟨m, hr, .inr ⟨err, e, hs, by rw [step_of_isFinal (i := i.advance _ e.machine) hfinal]⟩⟩

theorem log_steps (i : Interpreter σ δ) (n : Nat) :
    (i.steps n).log = i.log ++ (i.machine.history.take n).flatMap (·.warnings) := by
  obtain ⟨m, -, hsteps | ⟨err, e, -, hsteps⟩⟩ := i.exists_runs_of_steps n <;> rw [hsteps] <;> rfl

theorem log_run (i : Interpreter σ δ) : i.run.2.log = i.log ++ i.machine.history.flatMap (·.warnings) := by
  obtain ⟨h, m, hr, ⟨hm, hrun⟩ | ⟨err, e, hs, hrun⟩⟩ := i.exists_runs <;> rw [hrun, hr.history_eq]
  · rw [Machine.history_of_isFinal hm, List.append_nil]
    rfl
  · rw [Machine.history_of_failure hs, List.append_nil]
    rfl

/-- **Reading all that follows is to make steps until there is no more or one fails.** -/
theorem exists_steps_of_run (i : Interpreter σ δ) : ∃ n, (∀ k < n, (i.steps k).step.1 = .ok true) ∧
    (i.steps n).step = (i.run.1.map fun _ => false, i.run.2) := by
  rcases hs : i.step with ⟨err | _ | _, j⟩
  · refine ⟨0, nofun, ?_⟩
    rw [run_of_failure hs, steps, hs]
    rfl
  · refine ⟨0, nofun, ?_⟩
    rw [run_of_last_step hs, steps, hs]
    rfl
  · have hlt := remaining_lt_of_step hs
    obtain ⟨n, hbefore, hlast⟩ := exists_steps_of_run j
    have hsucc : ∀ k, i.steps (k + 1) = j.steps k := fun k => by rw [steps_succ_eq, hs]
    refine ⟨n + 1, fun k hk => ?_, ?_⟩
    · cases k with
      | zero => rw [steps, hs]
      | succ k => rw [hsucc, hbefore k (by omega)]
    · rw [hsucc, hlast, run_of_step hs]
termination_by i.machine.cursor.remaining

end Interpreter

end Dvi
