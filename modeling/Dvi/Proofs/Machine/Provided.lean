import Dvi.Proofs.Machine.SetUp
import Dvi.Proofs.Tables

/-!
# Metrics that a source gives

A source is asked for a font once, where its number is first defined. So the metrics of a machine follow from the source
that there was at first and from the fonts, in the order of their definitions.

* `metricsOf`: what a source gives for fonts that are defined one after the other;
* `Machine.Extends`: a machine has such fonts besides those of another machine; `Machine.Provided`: it has come by them
  since. **`Machine.Provided.defineFont`**: a definition; `Interpreter.provided_step`: a step;
* **`Interpreter.provided_interpretPage`**: so has the machine that has read a page by itself.
-/

namespace Dvi

/-! ## Sources -/

section Sources

variable {σ : Type} [FontSource σ]

/-- The metrics that a source gives for fonts when it is asked for one after the other. -/
def metricsOf (source : σ) : List FontDefinition → UInt32 → Option Metrics
  | [], _ => none
  | f :: fs, id =>
    if id = f.id then (FontSource.resolve source f).1.metrics
    else metricsOf (FontSource.resolve source f).2.2 fs id

theorem metricsOf_concat (source : σ) {fonts : List FontDefinition} {f : FontDefinition}
    (h : ∀ g ∈ fonts, g.id ≠ f.id) (id : UInt32) :
    metricsOf source (fonts ++ [f]) id =
      if id = f.id then (FontSource.resolve (askAll source fonts) f).1.metrics else metricsOf source fonts id := by
  induction fonts generalizing source with
  | nil => rfl
  | cons g gs ih =>
    rw [List.forall_mem_cons] at h
    rw [List.cons_append, metricsOf, metricsOf, ih _ h.2]
    by_cases hid : id = g.id
    · rw [if_pos hid, if_neg (hid ▸ h.1), if_pos hid]
    · rw [if_neg hid, if_neg hid]
      rfl

theorem metricsOf_eq_none (source : σ) {fonts : List FontDefinition} {id : UInt32} (h : ∀ f ∈ fonts, f.id ≠ id) :
    metricsOf source fonts id = none := by
  induction fonts generalizing source with
  | nil => rfl
  | cons f fs ih =>
    rw [List.forall_mem_cons] at h
    rw [metricsOf, if_neg (Ne.symm h.1), ih _ h.2]

end Sources

namespace Machine

variable {σ : Type} [FontSource σ] {b m m' : Machine σ}

/-- Behind the fonts of `b` the machine has the fonts `new`, with what the source of `b` gives for them. -/
structure Extends (b m : Machine σ) (new : List FontDefinition) : Prop where
  fonts : m.fonts.values = b.fonts.values ++ new
  source : m.source = askAll b.source new
  metrics : ∀ id, m.metrics.find? id = (metricsOf b.source new id).or (b.metrics.find? id)
  contains : ∀ f ∈ new, m.fonts.contains f.id = true

/-- The machine has come by its fonts since it was `b`. -/
def Provided (b m : Machine σ) : Prop := ∃ new, b.Extends m new

theorem Extends.concat {new : List FontDefinition} {f : FontDefinition} (h : b.Extends m new)
    (hf : m.fonts.find? f.id = none) : b.Extends (m.defineFont f).machine (new ++ [f]) := by
  have hno : ¬ m.fonts.contains f.id = true := by simp [Table.contains, hf]
  have hnew : ∀ g ∈ new, g.id ≠ f.id := fun g hg e => hno (e ▸ h.contains g hg)
  refine ⟨?_, ?_, fun id => ?_, fun g hg => (m.contains_defineFont f g.id).2 ?_⟩
  · rw [m.fonts_defineFont f, if_neg hno, Table.values, Table.entries_insert_of_not_contains hno, List.map_append,
      ← List.append_assoc, ← h.fonts]
    rfl
  · rw [m.source_defineFont f hf, h.source, askAll, askAll, List.foldl_append, List.foldl_cons, List.foldl_nil]
  · rw [m.find?_metrics_defineFont f hf, metricsOf_concat b.source hnew, h.source, h.metrics]
    by_cases hid : id = f.id
    · subst hid
      rw [if_pos rfl, if_pos rfl, metricsOf_eq_none b.source hnew, Option.none_or]
    · rw [if_neg hid, if_neg hid]
  · obtain hg | hg := List.mem_append.1 hg
    · exact .inl (h.contains g hg)
    · exact .inr (congrArg FontDefinition.id (List.mem_singleton.1 hg))

namespace Provided

theorem refl (b : Machine σ) : b.Provided b := ⟨[], (List.append_nil _).symm, rfl, fun _ => rfl, nofun⟩

theorem of_eq (h : b.Provided m) (hs : m'.source = m.source) (hf : m'.fonts = m.fonts) (hm : m'.metrics = m.metrics) :
    b.Provided m' := by
  obtain ⟨new, h⟩ := h
  refine ⟨new, ?_, ?_, fun id => ?_, fun f hnew => ?_⟩
  · rw [hf]
    exact h.fonts
  · rw [hs]
    exact h.source
  · rw [hm]
    exact h.metrics id
  · rw [hf]
    exact h.contains f hnew

/-- **A number that is defined for the first time gets what the source gives.** -/
theorem defineFont (h : b.Provided m) (f : FontDefinition) : b.Provided (m.defineFont f).machine := by
  rcases hd : m.fonts.find? f.id with _ | first
  · obtain ⟨new, h⟩ := h
    exact ⟨new ++ [f], h.concat hd⟩
  · rw [m.defineFont_of_contains f (Table.contains_iff.2 ⟨first, hd⟩)]
    exact h

theorem does {x : Executed} (h : b.Provided m) (hx : m.Does x m') : b.Provided m' := by
  rcases hd : x.command.definition? with _ | f
  · obtain ⟨hfonts, hmetrics, hsource⟩ := hx.fonts_eq hd
    exact h.of_eq hsource hfonts hmetrics
  · rw [hx.eq_defineFont hd]
    have hread : b.Provided (m.reading m'.cursor x.site) := h.of_eq rfl rfl rfl
    exact hread.defineFont f

theorem runs {history : List Executed} (h : b.Provided m) (hr : m.Runs history m') : b.Provided m' := by
  induction hr with
  | nil => exact h
  | snoc _ hx ih => exact ih.does hx

theorem failure {err : Error} {e : Effect σ} (h : b.Provided m) (hs : m.step = (.error err, e)) :
    b.Provided e.machine := by
  obtain ⟨_, _, c, site, _, he⟩ := of_step_eq_error hs
  rw [he]
  exact h.of_eq rfl rfl rfl

end Provided

end Machine

namespace Interpreter

variable {σ δ : Type} [FontSource σ] [Device δ] {b : Machine σ} {i : Interpreter σ δ}

theorem provided_step (h : b.Provided i.machine) : b.Provided i.step.2.machine := by
  by_cases hfinal : i.machine.phase.isFinal = true
  · rw [step_of_isFinal hfinal]
    exact h
  rcases hs : i.step with ⟨err | more, j⟩
  · obtain ⟨e, he, rfl⟩ := exists_machine_step_of_failure hs
    exact h.failure he
  · obtain ⟨x, hx, -⟩ := exists_does_of_step (by simpa using hfinal) hs
    exact h.does hx

theorem provided_defineFonts (h : b.Provided i.machine) (fonts : List FontDefinition) :
    b.Provided (i.defineFonts fonts).machine := by
  induction fonts generalizing i with
  | nil => exact h
  | cons f fs ih => exact ih (i := i.apply (i.machine.defineFont f)) (h.defineFont f)

theorem provided_readPreamble (h : b.Provided i.machine) : b.Provided i.readPreamble.2.machine := by
  have hstep := provided_step h
  unfold readPreamble
  split
  · split <;> rename_i hs <;> rwa [hs] at hstep
  · exact h

theorem provided_readTrailer (h : b.Provided i.machine) : b.Provided i.readTrailer.2.machine := by
  rcases hr : i.machine.randomAccess with _ | _
  · have hsearched : ∀ c, b.Provided (i.searched c).machine := fun c => h.of_eq rfl rfl rfl
    rw [readTrailer_eq hr]
    rcases Trailer.locate i.machine.cursor with ⟨t, c⟩ | ⟨e, c⟩
    · exact (provided_defineFonts (hsearched c) t.fonts).of_eq rfl rfl rfl
    · exact hsearched c
  · have htrailer : i.readTrailer = (.ok (), i) := if_pos hr
    rw [htrailer]
    exact h

theorem provided_readPageAt {i : Interpreter σ PageCollector} (h : b.Provided i.machine) (offset : Nat) :
    b.Provided (i.readPageAt offset).2.machine := by
  obtain ⟨c, phase, -, -, he⟩ | ⟨c, history, m, -, hr, hend⟩ := i.readPageAt_cases offset
  · rw [he]
    exact h.of_eq rfl rfl rfl
  have hstart : b.Provided ({ i.machine with cursor := c, phase := .betweenPages } : Machine σ) := h.of_eq rfl rfl rfl
  obtain he | ⟨err, e, hs, he⟩ := hend <;> rw [he]
  · exact hstart.runs hr
  · exact (hstart.runs hr).failure hs

/-- **A page that is read by itself is set in the fonts that were there, and in those that the source gave since.** -/
theorem provided_interpretPage (i : Interpreter σ PageCollector) (offset : Nat) :
    i.machine.Provided (i.interpretPage offset).2.machine := by
  have hpreamble := provided_readPreamble (.refl i.machine)
  unfold interpretPage
  generalize i.readPreamble = r₁ at hpreamble ⊢
  obtain ⟨err | _, i₁⟩ := r₁
  · exact hpreamble
  have htrailer := provided_readTrailer hpreamble
  dsimp only at htrailer ⊢
  generalize i₁.readTrailer = r₂ at htrailer ⊢
  obtain ⟨err | _, i₂⟩ := r₂
  · exact htrailer
  · exact provided_readPageAt htrailer offset

theorem provided_interpretPartial (data : ByteArray) (source : σ) :
    (Machine.start data source).Provided (interpretPartial data source).interpreter.machine := by
  obtain ⟨h, m, hr, hend⟩ := exists_interpretPartial data source
  have hm := (Machine.Provided.refl (Machine.start data source)).runs hr
  obtain ⟨-, he⟩ | ⟨err, e, hs, he⟩ := hend <;> rw [he]
  · exact hm
  · exact hm.failure hs

end Interpreter

end Dvi
