import Dvi.Proofs.Machine.Devices
import Dvi.Proofs.Machine.Truncation
import Mathlib.Algebra.GroupWithZero.Nat
import Mathlib.Data.List.Forall2

/-!
# Taking pages while they are drawn

The pages of an interpreter may be taken between any two of its steps. A page that is under way is taken as it
is then, and what is drawn on it afterwards is lost. Nothing else is.

* `Interpreter.drained`, `Interpreter.drainedPages`: all pages that come of taking them again and again;
* `PageCollector.Since`: a collector whose pages were taken beside one that was left alone.
  **`Interpreter.since_steps`**: it holds the pages that have begun since;
* `arrivals`: pages in the state in which they are first seen;
* **`Interpreter.drainedPages_begin`**: every page is taken once, in order, and is at least the beginning of what it
  should be. Nothing is lost if and only if no page was drawn on after it was taken.
-/

namespace Dvi

namespace Interpreter

variable {σ δ : Type} [FontSource σ] [Device δ]

/-- Takes the pages after each of some numbers of steps. -/
def drained (i : Interpreter σ δ) : List Nat → List Page × Interpreter σ δ
  | [] => ([], i)
  | k :: ks =>
    let (pages, j) := (i.steps k).takePages
    let (more, j') := j.drained ks
    (pages ++ more, j')

/-- The pages that were taken, and those of the document `n` steps later. -/
def drainedPages (i : Interpreter σ δ) (ks : List Nat) (n : Nat) : List Page :=
  (i.drained ks).1 ++ ((i.drained ks).2.steps n).document.pages

theorem drainedPages_cons (i : Interpreter σ δ) (k : Nat) (ks : List Nat) (n : Nat) :
    i.drainedPages (k :: ks) n = (i.steps k).document.pages ++ (i.steps k).takePages.2.drainedPages ks n :=
  List.append_assoc _ _ _

theorem steps_add (i : Interpreter σ δ) (m n : Nat) : i.steps (m + n) = (i.steps m).steps n := by
  induction n with
  | zero => rfl
  | succ n ih => exact congrArg (·.step.2) ih

theorem InStep.steps_add {δ' : Type} [Device δ'] {i : Interpreter σ δ} {j : Interpreter σ δ'} {t : Nat}
    (h : InStep (i.steps t) j) (k : Nat) : InStep (i.steps (t + k)) (j.steps k) :=
  i.steps_add t k ▸ h.steps k

end Interpreter

/-! ## A collector whose pages were taken -/

namespace PageCollector

theorem foldl_receive_event_of_current_eq_none (c : PageCollector) (hc : c.current = none) (events : List Event) :
    (events.map Signal.event).foldl Device.receive c = c := by
  obtain ⟨closed, current⟩ := c
  obtain rfl : current = none := hc
  induction events with
  | nil => rfl
  | cons e es ih => exact ih

/-- `d` has been told what `c` has been told since `c` held `q` pages; the last of these may still be under way. -/
inductive Since (q : Nat) : PageCollector → PageCollector → Prop
  | within {closed : List Page} {p : Page} (hq : closed.length + 1 = q) : Since q ⟨closed, some p⟩ {}
  | behind {closed old : List Page} {current : Option Page} (hq : old.length = q) :
    Since q ⟨closed ++ old, current⟩ ⟨closed, current⟩

namespace Since

theorem refl (c : PageCollector) : Since 0 c c := by
  have h : Since 0 ⟨c.closed ++ [], c.current⟩ c := behind rfl
  rwa [List.append_nil] at h

theorem taken (c : PageCollector) : Since c.pages.length c {} := by
  obtain ⟨closed, _ | p⟩ := c
  · exact @behind _ [] closed none (by simp [pages])
  · exact within (by simp [pages])

/-- The collector holds the pages that have begun since. -/
theorem pages_eq {q : Nat} {c d : PageCollector} (h : Since q c d) : d.pages = c.pages.drop q := by
  cases h with
  | within hq => simp [pages, ← hq]
  | behind hq => simp [pages, ← hq]

end Since

end PageCollector

namespace Machine

variable {σ : Type} [FontSource σ] {m m' : Machine σ}

theorem signals_of_step (m : Machine σ) :
    m.step.2.signals = [] ∨ ∃ x m', m.Does x m' ∧ m.step.2.signals = x.signals := by
  by_cases hm : m.phase.isFinal = true
  · exact .inl (by rw [step_of_isFinal hm])
  rcases hs : m.step with ⟨err | more, e⟩
  · exact .inl (of_step_eq_error hs).1
  · obtain ⟨⟨site, command, hx⟩, -⟩ := (step_eq_ok_iff (by simpa using hm)).1 hs
    exact .inr ⟨_, _, hx, rfl⟩

theorem Collects.since {q : Nat} {c d : PageCollector} {x : Executed} (hc : m.Collects c) (hx : m.Does x m')
    (h : PageCollector.Since q c d) :
    PageCollector.Since q (x.signals.foldl Device.receive c) (x.signals.foldl Device.receive d) := by
  obtain ⟨hp, -, events, hs⟩ | ⟨hp, -, hs⟩ | ⟨hp, -, p, -, hs⟩ | ⟨-, -, hs⟩ := hx.signals_cases <;> rw [hs]
  · obtain ⟨p, hcur⟩ := hc.underway hp
    rw [c.foldl_receive_event p hcur]
    cases h with
    | within hq =>
      rw [PageCollector.foldl_receive_event_of_current_eq_none _ rfl]
      exact .within hq
    | @behind closed old current hq =>
      rw [PageCollector.foldl_receive_event ⟨closed, current⟩ p hcur]
      exact .behind hq
  · obtain ⟨p, hcur⟩ := hc.underway hp
    cases h with
    | @within closed p hq => exact @PageCollector.Since.behind q [] (p :: closed) none hq
    | @behind closed old current hq =>
      obtain rfl := hcur
      exact @PageCollector.Since.behind q (p :: closed) old none hq
  · have hcur : c.current = none := hc.current_eq_none hp
    cases h with
    | within hq => cases hcur
    | behind hq => exact .behind hq
  · exact h

end Machine

namespace Interpreter

variable {σ : Type} [FontSource σ]

theorem device_step {δ : Type} [Device δ] (i : Interpreter σ δ) :
    i.step.2.device = i.machine.step.2.signals.foldl Device.receive i.device := rfl

theorem collects_steps (data : ByteArray) (source : σ) (t : Nat)
    (ht : ((start data source ({} : PageCollector)).steps t).machine.phase.isFinal = false) :
    ((start data source ({} : PageCollector)).steps t).machine.Collects
      ((start data source ({} : PageCollector)).steps t).device := by
  obtain ⟨m, hr, hsteps | ⟨err, e, hs, hsteps⟩⟩ := (start data source ({} : PageCollector)).exists_runs_of_steps t
  · rw [hsteps]
    exact hr.collects
  · rw [hsteps] at ht
    have hfailed : e.machine.phase = .failed := Machine.failed_of_step hs
    simp [advance, hfailed, Phase.isFinal] at ht

variable {i j : Interpreter σ PageCollector} {q : Nat}

theorem since_step (hc : i.machine.phase.isFinal = false → i.machine.Collects i.device) (hj : InStep i j)
    (h : PageCollector.Since q i.device j.device) : PageCollector.Since q i.step.2.device j.step.2.device := by
  rw [device_step, device_step, ← hj.machine]
  obtain hnone | ⟨x, m, hx, hs⟩ := i.machine.signals_of_step
  · rw [hnone]
    exact h
  · rw [hs]
    exact (hc hx.active).since hx h

/-- **An interpreter whose pages were taken goes on with the pages that have begun since.** -/
theorem since_steps {data : ByteArray} {source : σ} {t : Nat}
    (hj : InStep ((start data source ({} : PageCollector)).steps t) j)
    (h : PageCollector.Since q ((start data source ({} : PageCollector)).steps t).device j.device) (k : Nat) :
    PageCollector.Since q ((start data source ({} : PageCollector)).steps (t + k)).device (j.steps k).device := by
  induction k with
  | zero => exact h
  | succ k ih =>
    exact since_step (collects_steps data source (t + k)) (hj.steps_add k) ih

end Interpreter

/-! ## Pages left alone -/

theorem PageCollector.closed_suffix_receive (signals : List Signal) (c : PageCollector) :
    c.closed <:+ (signals.foldl Device.receive c).closed := by
  induction signals generalizing c with
  | nil => exact List.suffix_rfl
  | cons s signals ih =>
    refine List.IsSuffix.trans ?_ (ih (Device.receive c s))
    obtain ⟨closed, current⟩ := c
    cases s with
    | beginPage => exact List.suffix_rfl
    | endPage =>
      cases current with
      | none => exact List.suffix_rfl
      | some p => exact List.suffix_cons p closed
    | event => cases current <;> exact List.suffix_rfl

namespace Interpreter

variable {σ : Type} [FontSource σ]

theorem steps_of_isFinal {δ : Type} [Device δ] {i : Interpreter σ δ} (hi : i.machine.phase.isFinal = true) (n : Nat) :
    i.steps n = i := by
  induction n with
  | zero => rfl
  | succ n ih => rw [steps, ih, step_of_isFinal hi]

variable (data : ByteArray) (source : σ)

/-- The pages after `t` steps, if they are never taken. -/
def pagesAfter (t : Nat) : List Page := ((start data source ({} : PageCollector)).steps t).document.pages

theorem pagesAfter_begin (t k : Nat) : PagesBegin (pagesAfter data source t) (pagesAfter data source (t + k)) := by
  induction k with
  | zero => exact .refl _
  | succ k ih =>
    refine ih.trans ?_
    have hc := collects_steps data source (t + k)
    change PagesBegin (PageCollector.pages _) (PageCollector.pages (step _).2.device)
    rw [device_step]
    generalize (start data source ({} : PageCollector)).steps (t + k) = i at hc ⊢
    obtain hnone | ⟨x, m, hx, hs⟩ := i.machine.signals_of_step
    · rw [hnone]
      exact .refl _
    · rw [hs]
      exact (hc hx.active).pagesBegin hx

theorem pagesAfter_prefix {t : Nat}
    (ht : ((start data source ({} : PageCollector)).steps t).machine.phase ≠ .inPage) (k : Nat) :
    pagesAfter data source t <+: pagesAfter data source (t + k) := by
  have hc := collects_steps data source t
  rw [pagesAfter, pagesAfter, steps_add]
  generalize (start data source ({} : PageCollector)).steps t = i at hc ht ⊢
  by_cases hm : i.machine.phase.isFinal = true
  · simp only [steps_of_isFinal hm, List.prefix_rfl]
  have hcur : i.device.current = none := (hc (by simpa using hm)).current_eq_none ht
  change i.device.pages <+: (i.steps k).device.pages
  rw [device_steps, PageCollector.pages, PageCollector.pages, hcur, Option.toList_none, List.append_nil]
  exact (List.reverse_prefix.2 (PageCollector.closed_suffix_receive _ i.device)).trans (List.prefix_append _ _)

end Interpreter

/-! ## Pages as they are first seen -/

/-- The pages that are there at times after `t`, each as it is when it is first seen. -/
def arrivals (held : Nat → List Page) : Nat → List Nat → List Page
  | _, [] => []
  | t, k :: ks => (held (t + k)).drop (held t).length ++ arrivals held (t + k) ks

namespace PagesBegin

variable {ps qs rs : List Page}

theorem length_le (h : PagesBegin ps qs) : ps.length ≤ qs.length := by
  refine Nat.le_of_not_lt fun hlt => ?_
  obtain ⟨q, hq, -⟩ := h qs.length _ (List.getElem?_eq_getElem hlt)
  simp at hq

theorem forall₂ (h : PagesBegin ps qs) : List.Forall₂ Page.Begins ps (qs.take ps.length) := by
  refine List.forall₂_iff_get.2 ⟨by simp [h.length_le], fun i hi _ => ?_⟩
  obtain ⟨q, hq, hbegins, -⟩ := h i _ (List.getElem?_eq_getElem hi)
  simpa [(List.getElem?_eq_some_iff.1 hq).2] using hbegins

theorem prefix_left (h : PagesBegin ps qs) (h' : PagesBegin qs rs) (hps : ps <+: rs) : ps <+: qs := by
  rw [List.prefix_iff_getElem?] at hps ⊢
  intro i hi
  obtain ⟨q, hq, hpq, -⟩ := h i _ (List.getElem?_eq_getElem hi)
  obtain ⟨r, hr, hqr, -⟩ := h' i q hq
  obtain rfl : ps[i] = r := Option.some.inj ((hps i hi).symm.trans hr)
  rw [hq, hqr.antisymm hpq]

end PagesBegin

section Arrivals

variable {held : Nat → List Page} (hheld : ∀ t k, PagesBegin (held t) (held (t + k)))
include hheld

theorem drop_eq_append (t k n : Nat) : (held (t + k + n)).drop (held t).length =
    ((held (t + k + n)).take (held (t + k)).length).drop (held t).length ++
      (held (t + k + n)).drop (held (t + k)).length := by
  have hle : (held t).length ≤ ((held (t + k + n)).take (held (t + k)).length).length := by
    rw [List.length_take, Nat.min_eq_left (hheld (t + k) n).length_le]
    exact (hheld t k).length_le
  rw [← List.drop_append_of_le_length hle, List.take_append_drop]

/-- Each page arrives once, in order, and is the beginning of what it is at last. -/
theorem arrivals_begin (t : Nat) (ks : List Nat) :
    List.Forall₂ Page.Begins (arrivals held t ks) ((held (t + ks.sum)).drop (held t).length) := by
  induction ks generalizing t with
  | nil => simp [arrivals]
  | cons k ks ih =>
    rw [List.sum_cons, ← Nat.add_assoc, drop_eq_append hheld]
    exact List.rel_append (List.forall₂_drop _ (hheld (t + k) ks.sum).forall₂) (ih (t + k))

/-- Every page arrives as it is at last if and only if none was drawn on after it was seen. -/
theorem arrivals_eq_iff (t : Nat) (ks : List Nat) (ht : held t <+: held (t + ks.sum)) :
    arrivals held t ks = (held (t + ks.sum)).drop (held t).length ↔
      ∀ l, l <+: ks → held (t + l.sum) <+: held (t + ks.sum) := by
  induction ks generalizing t with
  | nil => simp [arrivals]
  | cons k ks ih =>
    have hsum : ∀ l : List Nat, t + (k :: l).sum = t + k + l.sum := fun l => by rw [List.sum_cons, Nat.add_assoc]
    rw [hsum] at ht ⊢
    have hk := hheld (t + k) ks.sum
    have hlength : ((held (t + k)).drop (held t).length).length =
        (((held (t + k + ks.sum)).take (held (t + k)).length).drop (held t).length).length := by
      rw [List.length_drop, List.length_drop, List.length_take, Nat.min_eq_left hk.length_le]
    rw [arrivals, drop_eq_append hheld]
    refine ⟨fun h => ?_, fun h => ?_⟩
    · obtain ⟨hnew, hrest⟩ := List.append_inj h hlength
      have hfirst : held (t + k) <+: held (t + k + ks.sum) := by
        have hold : (held (t + k)).take (held t).length =
            ((held (t + k + ks.sum)).take (held (t + k)).length).take (held t).length := by
          rw [List.take_take, Nat.min_eq_left (hheld t k).length_le, ← List.prefix_iff_eq_take.1 ht,
            ← List.prefix_iff_eq_take.1 ((hheld t k).prefix_left hk ht)]
        rw [List.prefix_iff_eq_take, ← List.take_append_drop (held t).length (List.take _ _), ← hold, ← hnew,
          List.take_append_drop]
      intro l hl
      cases l with
      | nil => exact ht
      | cons k' l =>
        obtain ⟨rfl, htail⟩ := List.cons_prefix_cons.1 hl
        rw [hsum]
        exact (ih (t + k') hfirst).1 hrest l htail
    · have hfirst : held (t + k) <+: held (t + k + ks.sum) := h [k] (by simp)
      rw [← List.prefix_iff_eq_take.1 hfirst]
      refine congrArg _ ((ih (t + k) hfirst).2 fun l hl => ?_)
      rw [← hsum]
      exact h (k :: l) (List.cons_prefix_cons.2 ⟨rfl, hl⟩)

end Arrivals

namespace Interpreter

variable {σ : Type} [FontSource σ] {data : ByteArray} {source : σ}

theorem drainedPages_eq_arrivals {j : Interpreter σ PageCollector} {t : Nat}
    (hj : InStep ((start data source ({} : PageCollector)).steps t) j)
    (h : PageCollector.Since (pagesAfter data source t).length
      ((start data source ({} : PageCollector)).steps t).device j.device) (ks : List Nat) (n : Nat) :
    j.drainedPages ks n = arrivals (pagesAfter data source) t (ks ++ [n]) := by
  induction ks generalizing t j with
  | nil => exact (since_steps hj h n).pages_eq.trans (List.append_nil _).symm
  | cons k ks ih =>
    have hk : InStep ((start data source ({} : PageCollector)).steps (t + k)) (j.steps k) := hj.steps_add k
    have hj' : InStep ((start data source ({} : PageCollector)).steps (t + k)) (j.steps k).takePages.2 :=
      ⟨hk.machine, hk.log⟩
    rw [drainedPages_cons, ih hj' (.taken _)]
    exact congrArg (· ++ _) (since_steps hj h k).pages_eq

/-- **No page is lost, repeated or moved when pages are taken between steps, but a page that is under way may be
taken too early.** Each page comes as it is when it is first taken, which is a beginning of what it is in the end.
All are complete if and only if no page was drawn on after it was taken; so they are if pages are only taken where
none is under way. -/
theorem drainedPages_begin (data : ByteArray) (source : σ) (ks : List Nat) (n : Nat) :
    let pages := (start data source ({} : PageCollector)).drainedPages ks n
    let whole := pagesAfter data source (ks.sum + n)
    pages = arrivals (pagesAfter data source) 0 (ks ++ [n]) ∧
    List.Forall₂ Page.Begins pages whole ∧
    (pages = whole ↔ ∀ l, l <+: ks → pagesAfter data source l.sum <+: whole) ∧
    ((∀ l, l <+: ks → ((start data source ({} : PageCollector)).steps l.sum).machine.phase ≠ .inPage) →
      pages = whole) := by
  have hpages : (start data source ({} : PageCollector)).drainedPages ks n =
      arrivals (pagesAfter data source) 0 (ks ++ [n]) :=
    drainedPages_eq_arrivals (t := 0) ⟨rfl, rfl⟩ (.refl _) ks n
  have hsum : 0 + (ks ++ [n]).sum = ks.sum + n := by simp
  have hbegin := arrivals_begin (pagesAfter_begin data source) 0 (ks ++ [n])
  have hiff := arrivals_eq_iff (pagesAfter_begin data source) 0 (ks ++ [n]) List.nil_prefix
  rw [hsum, ← hpages] at hbegin hiff
  have hcomplete : (start data source ({} : PageCollector)).drainedPages ks n = pagesAfter data source (ks.sum + n) ↔
      ∀ l, l <+: ks → pagesAfter data source l.sum <+: pagesAfter data source (ks.sum + n) := by
    refine hiff.trans ⟨fun h l hl => ?_, fun h l hl => ?_⟩
    · rw [← Nat.zero_add l.sum]
      exact h l (hl.trans (List.prefix_append ks [n]))
    · obtain rfl | hl := List.prefix_concat_iff.1 hl
      · simp only [hsum, List.prefix_rfl]
      · rw [Nat.zero_add]
        exact h l hl
  refine ⟨hpages, hbegin, hcomplete, fun h => hcomplete.2 fun l hl => ?_⟩
  obtain ⟨rest, rfl⟩ := hl
  rw [List.sum_append, Nat.add_assoc]
  exact pagesAfter_prefix data source (h l (List.prefix_append l rest)) _

/-- A page that is taken behind its character comes without its rule. -/
theorem drainedPages_ne_twoPages : (start twoPages NoFonts.mk ({} : PageCollector)).drainedPages [5] 9 ≠
    pagesAfter twoPages NoFonts.mk 14 := by
  decide +kernel

end Interpreter

end Dvi
