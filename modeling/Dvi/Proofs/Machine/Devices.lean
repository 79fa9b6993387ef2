import Dvi.Proofs.Machine.Drawing
import Dvi.Proofs.Machine.Steps

/-!
# Devices

A device is told what is drawn and is never asked. So it makes no difference to what is read, and what it
holds is all in the history of the machine.

* `Interpreter.InStep`: two interpreters that differ at most in their devices, and
  **`Interpreter.InStep.steps`**: they stay so;
* `EventCounter.ofPages`: what there is to count on pages;
* **`Machine.Does.counted`**, **`Machine.Runs.counted`**: a counter counts what is on the pages that a
  collector holds, with each command and over a run;
* **`Interpreter.counter_agrees_with_collector`**: both together, after any number of steps.
-/

namespace Dvi

/-! ## Counting on pages -/

namespace Event

/-- A character is typeset. -/
def isChar : Event → Bool
  | .char .. => true
  | _ => false

/-- A rule is drawn. -/
def isRule : Event → Bool
  | .rule .. => true
  | _ => false

/-- A text is handed through to the device. -/
def isSpecial : Event → Bool
  | .special .. => true
  | _ => false

end Event

namespace EventCounter

/-- The numbers of pages, and of characters, rules and specials on them. -/
def ofPages (pages : List Page) : EventCounter :=
  let events := pages.flatMap fun p => p.events.toList
  { pages := pages.length
    chars := events.countP Event.isChar
    rules := events.countP Event.isRule
    specials := events.countP Event.isSpecial }

theorem foldl_count (c : EventCounter) (events : List Event) : events.foldl count c =
    { c with
      chars := c.chars + events.countP Event.isChar
      rules := c.rules + events.countP Event.isRule
      specials := c.specials + events.countP Event.isSpecial } := by
  induction events generalizing c with
  | nil => rfl
  | cons e events ih =>
    rw [List.foldl_cons, ih]
    cases e <;> simp [count, List.countP_cons, Event.isChar, Event.isRule, Event.isSpecial, Nat.add_comm,
      Nat.add_left_comm]

theorem foldl_receive_event (c : EventCounter) (events : List Event) :
    (events.map Signal.event).foldl Device.receive c = events.foldl count c := by
  rw [List.foldl_map]
  rfl

theorem ofPages_concat (pages : List Page) {p : Page} (hp : p.events = #[]) :
    ofPages (pages ++ [p]) = { ofPages pages with pages := (ofPages pages).pages + 1 } := by
  simp [ofPages, hp]

theorem ofPages_draw (pages : List Page) (p : Page) (events : List Event) :
    ofPages (pages ++ [p.draw events]) = events.foldl count (ofPages (pages ++ [p])) := by
  rw [foldl_count]
  simp [ofPages, Page.draw, Nat.add_assoc]

end EventCounter

/-! ## A counter beside a collector -/

namespace Machine

variable {σ : Type} [FontSource σ]

theorem Does.counted {m m' : Machine σ} {c : PageCollector} {x : Executed} (hc : m.Collects c) (hx : m.Does x m') :
    x.signals.foldl Device.receive (EventCounter.ofPages c.pages) =
      EventCounter.ofPages (x.signals.foldl Device.receive c).pages := by
  obtain ⟨hp, -, events, hs⟩ | ⟨hp, -, hs⟩ | ⟨hp, -, p, hempty, hs⟩ | ⟨-, -, hs⟩ := hx.signals_cases <;> rw [hs]
  · obtain ⟨p, hcur⟩ := hc.underway hp
    rw [c.foldl_receive_event p hcur, EventCounter.foldl_receive_event]
    simp only [PageCollector.pages, hcur, Option.toList_some, EventCounter.ofPages_draw]
  · obtain ⟨p, hcur⟩ := hc.underway hp
    obtain ⟨closed, current⟩ := c
    obtain rfl : current = some p := hcur
    simp [Device.receive, PageCollector.pages]
  · have hcur : c.current = none := hc.current_eq_none hp
    simp [Device.receive, PageCollector.pages, hcur, EventCounter.ofPages_concat _ hempty]
  · rfl

/-- **Over a run, what is counted is what is collected.** -/
theorem Runs.counted {data : ByteArray} {source : σ} {m : Machine σ} {h : List Executed}
    (hr : (start data source).Runs h m) :
    (h.flatMap Executed.signals).foldl Device.receive ({} : EventCounter) =
      EventCounter.ofPages ((h.flatMap Executed.signals).foldl Device.receive ({} : PageCollector)).pages := by
  induction hr with
  | nil => rfl
  | snoc hr hx ih =>
    simp only [List.flatMap_append, List.foldl_append, List.flatMap_cons, List.flatMap_nil, List.append_nil]
    rw [ih]
    exact hx.counted hr.collects

end Machine

/-! ## Interpreters with different devices -/

namespace Interpreter

variable {σ δ δ' : Type} [FontSource σ] [Device δ] [Device δ']

/-- Two interpreters that differ at most in their devices. -/
structure InStep (i : Interpreter σ δ) (j : Interpreter σ δ') : Prop where
  machine : i.machine = j.machine
  log : i.log = j.log

namespace InStep

variable {i : Interpreter σ δ} {j : Interpreter σ δ'}

theorem result (h : InStep i j) : i.step.1 = j.step.1 := congrArg (·.step.1) h.machine

theorem step (h : InStep i j) : InStep i.step.2 j.step.2 where
  machine := congrArg (·.step.2.machine) h.machine
  log := by
    change (i.apply i.machine.step.2).log = (j.apply j.machine.step.2).log
    rw [apply_eq, apply_eq, h.machine, h.log]

/-- **Interpreters that differ at most in their devices go on to.** -/
theorem steps (h : InStep i j) (n : Nat) : InStep (i.steps n) (j.steps n) := by
  induction n with
  | zero => exact h
  | succ n ih => exact ih.step

end InStep

theorem device_steps (i : Interpreter σ δ) (n : Nat) :
    (i.steps n).device = ((i.machine.history.take n).flatMap Executed.signals).foldl Device.receive i.device := by
  obtain ⟨m, -, hsteps | ⟨err, e, -, hsteps⟩⟩ := i.exists_runs_of_steps n <;> rw [hsteps] <;> rfl

/-- **No device influences what is read, and a counter agrees with a collector**: after any number of steps the
machines, the warnings and the result of the next step are the same, and what is counted is what is on the pages
collected, the page under way among them. -/
theorem counter_agrees_with_collector (data : ByteArray) (source : σ) (n : Nat) :
    let collector := (start data source ({} : PageCollector)).steps n
    let counter := (start data source ({} : EventCounter)).steps n
    (∀ (δ : Type) [Device δ] (device : δ), let other := (start data source device).steps n
      other.step.1 = collector.step.1 ∧ other.machine = collector.machine ∧ other.log = collector.log) ∧
    counter.device = .ofPages collector.device.pages := by
  refine ⟨fun δ _ device => ?_, ?_⟩
  · have hstart : InStep (start data source device) (start data source ({} : PageCollector)) := ⟨rfl, rfl⟩
    have hsteps := hstart.steps n
    exact ⟨hsteps.result, hsteps.machine, hsteps.log⟩
  · obtain ⟨m, hr, -⟩ := (start data source ({} : PageCollector)).exists_runs_of_steps n
    rw [device_steps, device_steps]
    exact hr.counted

end Interpreter

end Dvi
