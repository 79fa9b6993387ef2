import Dvi.Proofs.Machine.Fonts

/-!
# Fonts whose metrics depend on their names

If a source answers by the name of a font, the widths of characters follow from the definitions alone.

* `AnswersByName`: a source that answers by name, whatever it was asked before;
* `Machine.Resolved`: the fonts and metrics of a machine are those of the first definition of each number;
  **`Machine.Runs.resolved`**: so they are after a run;
* **`Machine.Resolved.keepsFonts`**: definitions that agree, and define the same numbers, give the same fonts.
-/

namespace Dvi

/-! ## Sources -/

section Sources

variable {σ : Type} [FontSource σ]

/-- A source as it is after it was asked for some fonts. -/
inductive Asked (source : σ) : σ → Prop
  | nil : Asked source source
  | snoc {s : σ} (h : Asked source s) (f : FontDefinition) : Asked source (FontSource.resolve s f).2.2

theorem Asked.cons {source s : σ} {f : FontDefinition} (h : Asked (FontSource.resolve source f).2.2 s) :
    Asked source s := by
  induction h with
  | nil => exact .snoc .nil f
  | snoc _ g ih => exact ih.snoc g

/-- The source answers by the name of a font only. -/
def AnswersByName (source : σ) (answer : String → ResolvedFont) : Prop :=
  ∀ s, Asked source s → ∀ f, (FontSource.resolve s f).1 = answer f.name

theorem AnswersByName.ask {source : σ} {answer : String → ResolvedFont} (h : AnswersByName source answer)
    (f : FontDefinition) : AnswersByName (FontSource.resolve source f).2.2 answer :=
  fun s hs => h s hs.cons

end Sources

theorem FontDefinition.sameFont_refl (f : FontDefinition) : f.sameFont f = true := by
  simp [sameFont]

/-- The warning about a number that is defined again for another font. -/
def Warning.isRedefinition : Warning → Bool
  | .fontRedefined .. => true
  | _ => false

/-- The first definition of a number. -/
def firstDefinition? (defs : List FontDefinition) (id : UInt32) : Option FontDefinition :=
  defs.find? fun f => f.id = id

theorem firstDefinition?_concat (defs : List FontDefinition) (f : FontDefinition) (id : UInt32) :
    firstDefinition? (defs ++ [f]) id =
      (firstDefinition? defs id).or (if f.id = id then some f else none) := by
  unfold firstDefinition?
  rw [List.find?_append, List.find?_singleton]
  simp

/-- Definitions of one number that are the same font. -/
def Unambiguous (defs : List FontDefinition) : Prop :=
  ∀ f ∈ defs, ∃ first, firstDefinition? defs f.id = some first ∧ first.sameFont f = true

namespace Machine

variable {σ : Type} [FontSource σ]

/-- The machine has the fonts that the definitions `defs` give, with their metrics. -/
structure Resolved (m : Machine σ) (answer : String → ResolvedFont) (defs : List FontDefinition) : Prop where
  source : AnswersByName m.source answer
  fonts : ∀ id, m.fonts.find? id = firstDefinition? defs id
  metrics : ∀ id, m.metrics.find? id = (firstDefinition? defs id).bind fun f => (answer f.name).metrics

namespace Resolved

variable {m m' : Machine σ} {answer : String → ResolvedFont} {defs : List FontDefinition}

theorem of_eq (h : m.Resolved answer defs) (hs : m'.source = m.source) (hf : m'.fonts = m.fonts)
    (hm : m'.metrics = m.metrics) : m'.Resolved answer defs := by
  refine ⟨?_, fun id => ?_, fun id => ?_⟩
  · rw [hs]
    exact h.source
  · rw [hf]
    exact h.fonts id
  · rw [hm]
    exact h.metrics id

theorem defineFont (h : m.Resolved answer defs) (f : FontDefinition) :
    (m.defineFont f).machine.Resolved answer (defs ++ [f]) := by
  rcases hd : m.fonts.find? f.id with _ | first
  · have hfirst : firstDefinition? defs f.id = none := (h.fonts f.id).symm.trans hd
    have hmetrics : m.metrics.find? f.id = none := by rw [h.metrics, hfirst, Option.bind_none]
    refine ⟨?_, fun id => ?_, fun id => ?_⟩
    · rw [m.source_defineFont f hd]
      exact h.source.ask f
    · rw [m.find?_fonts_defineFont f hd, firstDefinition?_concat, h.fonts]
      by_cases hid : id = f.id
      · rw [hid, hfirst, if_pos rfl, Option.none_or]
      · rw [if_neg hid, if_neg (Ne.symm hid), Option.or_none]
    · rw [m.find?_metrics_defineFont f hd, h.source _ .nil f, firstDefinition?_concat]
      by_cases hid : id = f.id
      · rw [hid, hfirst, if_pos rfl, if_pos rfl, hmetrics, Option.none_or, Option.bind_some, Option.or_none]
      · rw [if_neg hid, if_neg (Ne.symm hid), Option.or_none, h.metrics]
  · have hfirst : firstDefinition? defs f.id = some first := (h.fonts f.id).symm.trans hd
    have hsame : ∀ id, firstDefinition? (defs ++ [f]) id = firstDefinition? defs id := by
      intro id
      rw [firstDefinition?_concat]
      by_cases hid : f.id = id
      · rw [← hid, hfirst]
        rfl
      · rw [if_neg hid, Option.or_none]
    rw [m.defineFont_of_contains f (Table.contains_iff.2 ⟨first, hd⟩)]
    refine ⟨h.source, fun id => ?_, fun id => ?_⟩
    · rw [hsame, h.fonts]
    · rw [hsame, h.metrics]

theorem does (h : m.Resolved answer defs) {x : Executed} (hx : m.Does x m') :
    m'.Resolved answer (defs ++ x.command.definition?.toList) := by
  rcases hd : x.command.definition? with _ | f
  · rw [Option.toList_none, List.append_nil]
    obtain ⟨hf, hm, hs⟩ := hx.fonts_eq hd
    exact h.of_eq hs hf hm
  · have hr : (m.reading m'.cursor x.site).Resolved answer defs := h.of_eq rfl rfl rfl
    rw [hx.eq_defineFont hd]
    exact hr.defineFont f

theorem charWidth (h : m.Resolved answer defs) (id code : UInt32) : m.charWidth id code =
    (firstDefinition? defs id).bind fun f =>
      (answer f.name).metrics.bind fun metrics => metrics.scaledWidth? code f.scale := by
  unfold Machine.charWidth
  rw [h.fonts, h.metrics]
  rcases firstDefinition? defs id with _ | f
  · rfl
  · rfl

/-- **Definitions that agree with those of a machine give its fonts again**, if no number is left out. -/
theorem keepsFonts {defs' : List FontDefinition} (h : m.Resolved answer defs) (h' : m'.Resolved answer defs')
    (hu : Unambiguous defs) (hsub : ∀ f ∈ defs', f ∈ defs) (hall : ∀ f ∈ defs, ∃ g ∈ defs', g.id = f.id) :
    m.KeepsFonts m' := by
  intro id hid
  obtain ⟨f, hf⟩ := Table.contains_iff.1 hid
  rw [h.fonts] at hf
  have hfid : f.id = id := by simpa using List.find?_some hf
  obtain ⟨g, hg, hgid⟩ := hall f (List.mem_of_find?_eq_some hf)
  -- the first definition of the number among the others
  obtain ⟨g', hg'⟩ : ∃ g', firstDefinition? defs' id = some g' := by
    refine Option.isSome_iff_exists.1 (List.find?_isSome.2 ⟨g, hg, ?_⟩)
    simp [hgid, hfid]
  have hgid' : g'.id = id := by simpa using List.find?_some hg'
  obtain ⟨first, hfirst, hsame⟩ := hu g' (hsub g' (List.mem_of_find?_eq_some hg'))
  rw [hgid', hf] at hfirst
  obtain rfl : f = first := Option.some.inj hfirst
  simp only [FontDefinition.sameFont, Bool.and_eq_true, beq_iff_eq] at hsame
  obtain ⟨⟨⟨⟨-, hscale⟩, -⟩, -⟩, hname⟩ := hsame
  refine ⟨Table.contains_iff.2 ⟨g', (h'.fonts id).trans hg'⟩, fun code => ?_⟩
  rw [h.charWidth, h'.charWidth, hf, hg', Option.bind_some, Option.bind_some, hscale, hname]

end Resolved

/-! ## Runs -/

variable {data : ByteArray} {source : σ} {m : Machine σ} {h : List Executed}

/-- **A run has the fonts that it defines.** -/
theorem Runs.resolved {answer : String → ResolvedFont} (hr : (start data source).Runs h m)
    (hs : AnswersByName source answer) :
    m.Resolved answer (h.filterMap fun x => x.command.definition?) := by
  induction hr with
  | nil => exact ⟨hs, fun _ => rfl, fun _ => rfl⟩
  | @snoc h x m₁ m₂ _ hx ih =>
    have hd := ih.does hx
    rw [List.filterMap_append]
    cases hc : x.command.definition? <;> simpa [hc] using hd

theorem Does.sameFont {m m' : Machine σ} {x : Executed} (hx : m.Does x m') {f first : FontDefinition}
    (hc : x.command = .defineFont f) (hf : m.fonts.find? f.id = some first)
    (hw : ∀ w ∈ x.warnings, w.isRedefinition = false) : first.sameFont f = true := by
  have he := hx.executed
  rw [hc] at he
  have hwarn : ((m.reading m'.cursor x.site).defineFont f).warnings = x.warnings :=
    congrArg Effect.warnings (Except.ok.inj he)
  unfold defineFont reading at hwarn
  simp only [hf] at hwarn
  by_cases hs : first.sameFont f = true
  · exact hs
  · rw [if_neg hs] at hwarn
    have := hw (.fontRedefined f.id first.name first.offset f.name f.offset) (by rw [← hwarn]; simp)
    cases this

/-- **Fonts that are not redefined are unambiguous.** -/
theorem Runs.unambiguous {answer : String → ResolvedFont} (hr : (start data source).Runs h m)
    (hs : AnswersByName source answer) (hw : ∀ x ∈ h, ∀ w ∈ x.warnings, w.isRedefinition = false) :
    Unambiguous (h.filterMap fun x => x.command.definition?) := by
  induction hr with
  | nil => exact nofun
  | @snoc h x m₁ m₂ hr hx ih =>
    have hu := ih fun y hy => hw y (List.mem_append_left _ hy)
    rw [List.filterMap_append]
    rcases hd : x.command.definition? with _ | f
    · have hlist : [x].filterMap (fun x => x.command.definition?) = [] := by simp [hd]
      rw [hlist, List.append_nil]
      exact hu
    · have hc := Command.eq_of_definition? hd
      have hlist : [x].filterMap (fun x => x.command.definition?) = [f] := by simp [hd]
      rw [hlist]
      intro g hg
      rw [firstDefinition?_concat]
      obtain hg | hg := List.mem_append.1 hg
      · obtain ⟨first, hfirst, hsame⟩ := hu g hg
        exact ⟨first, by rw [hfirst, Option.some_or], hsame⟩
      · obtain rfl := List.mem_singleton.1 hg
        have hfonts := (hr.resolved hs).fonts g.id
        rcases hf : m₁.fonts.find? g.id with _ | first
        · rw [hf] at hfonts
          exact ⟨g, by rw [← hfonts, Option.none_or, if_pos rfl], g.sameFont_refl⟩
        · rw [hf] at hfonts
          exact ⟨first, by rw [← hfonts, Option.some_or], hx.sameFont hc hf (hw x (by simp))⟩

end Machine

end Dvi
