import Dvi.Proofs.Machine.Drawing

/-!
# Fonts on pages

Every font on a page was defined, and a character has the font that was selected last on its page.

* `latest?`: what comes last in a list; `selected?`: the font that is selected after some events;
* `Page.Typeset`: a page with fonts as they have to be. **`Machine.Draws.typeset`**: so is every page that is drawn;
* **`Machine.Runs.selected`**: the font of a machine is one of its fonts.
-/

namespace Dvi

/-- The last thing that `f` gives of a list. -/
def latest? {α β : Type} (f : α → Option β) (l : List α) : Option β := (l.filterMap f).getLast?

theorem latest?_concat {α β : Type} (f : α → Option β) (l : List α) (a : α) :
    latest? f (l ++ [a]) = (f a).or (latest? f l) := by
  unfold latest?
  cases ha : f a <;> simp [ha]

theorem exists_of_latest? {α β : Type} {f : α → Option β} {l : List α} {b : β} (h : latest? f l = some b) :
    ∃ a ∈ l, f a = some b := List.mem_filterMap.1 (List.mem_of_getLast? h)

namespace Event

/-- The font of a character or of a selection. -/
def font? : Event → Option UInt32
  | .char _ _ _ font _ _ | .fontSelect font => some font
  | _ => none

/-- The font that an event selects. -/
def selection? : Event → Option UInt32
  | .fontSelect font => some font
  | _ => none

end Event

/-- The font that was selected last. -/
def selected? (events : List Event) : Option UInt32 := latest? Event.selection? events

theorem selected?_concat (events : List Event) (e : Event) :
    selected? (events ++ [e]) = e.selection?.or (selected? events) := latest?_concat _ _ _

/-! ## Pages -/

namespace Page

variable {p : Page} {fonts fonts' : List UInt32}

/-- The fonts of the page are among `fonts`, and its characters have the font that was selected last before them. -/
structure Typeset (p : Page) (fonts : List UInt32) : Prop where
  defined : ∀ e ∈ p.events.toList, ∀ font, e.font? = some font → font ∈ fonts
  selected : ∀ before placement h v font code width after,
    p.events.toList = before ++ .char placement h v font code width :: after → selected? before = some font

namespace Typeset

theorem mono (hp : p.Typeset fonts) (hf : fonts ⊆ fonts') : p.Typeset fonts' :=
  ⟨fun e he font h => hf (hp.defined e he font h), hp.selected⟩

theorem mem_of_selected? (hp : p.Typeset fonts) {font : UInt32} (h : selected? p.events.toList = some font) :
    font ∈ fonts := by
  obtain ⟨e, he, hs⟩ := exists_of_latest? h
  refine hp.defined e he font ?_
  cases e <;> cases hs
  rfl

theorem draw_nil (hp : p.Typeset fonts) : (p.draw []).Typeset fonts := by
  simpa [Page.draw] using hp

theorem draw_singleton (hp : p.Typeset fonts) {e : Event} (hdefined : ∀ font, e.font? = some font → font ∈ fonts)
    (hselected : ∀ placement h v font code width, e = .char placement h v font code width →
      selected? p.events.toList = some font) : (p.draw [e]).Typeset fonts := by
  have hevents : (p.draw [e]).events.toList = p.events.toList ++ [e] := by simp [Page.draw]
  refine ⟨fun c hc => ?_, fun before placement h v font code width after hsplit => ?_⟩
  · rw [hevents, List.mem_append, List.mem_singleton] at hc
    obtain hc | rfl := hc
    · exact hp.defined c hc
    · exact hdefined
  · rw [hevents] at hsplit
    -- the character is the last event, or one of those before
    obtain rfl | ⟨after, c, rfl⟩ := after.eq_nil_or_concat
    · obtain ⟨rfl, hc⟩ := List.append_inj' hsplit rfl
      exact hselected _ _ _ _ _ _ (List.singleton_inj.1 hc)
    · rw [List.concat_eq_append, ← List.cons_append, ← List.append_assoc] at hsplit
      exact hp.selected _ _ _ _ _ _ _ _ (List.append_inj' hsplit rfl).1

end Typeset

end Page

/-! ## What is drawn -/

namespace Machine

variable {σ : Type}

/-- What a machine may tell of next, and the font that is selected then. -/
inductive Inks (m : Machine σ) : List Event → Option UInt32 → Prop
  | nothing : Inks m [] m.graphics.font
  | character {placement : Placement} {h v : Int32} {font code : UInt32} {width : Option Int32}
    (hf : m.graphics.font = some font) : Inks m [.char placement h v font code width] m.graphics.font
  | selection {font : UInt32} (hf : m.fonts.contains font = true) : Inks m [.fontSelect font] (some font)
  | other {e : Event} (he : e.font? = none) : Inks m [e] m.graphics.font

theorem Inks.typeset {m : Machine σ} {events : List Event} {font : Option UInt32} (h : m.Inks events font) {p : Page}
    (hp : p.Typeset m.fonts.keys) (hs : selected? p.events.toList = m.graphics.font) :
    (p.draw events).Typeset m.fonts.keys ∧ selected? (p.draw events).events.toList = font := by
  have hevents : (p.draw events).events.toList = p.events.toList ++ events := by simp [Page.draw]
  rw [hevents]
  cases h with
  | nothing => exact ⟨hp.draw_nil, by rw [List.append_nil, hs]⟩
  | character hf =>
    rw [selected?_concat, hs]
    refine ⟨hp.draw_singleton ?_ ?_, rfl⟩
    · rintro _ ⟨⟩
      exact hp.mem_of_selected? (hs.trans hf)
    · rintro _ _ _ _ _ _ ⟨⟩
      exact hs.trans hf
  | selection hf =>
    rw [selected?_concat]
    refine ⟨hp.draw_singleton ?_ ?_, rfl⟩
    · rintro _ ⟨⟩
      exact Table.contains_iff_mem_keys.1 hf
    · rintro _ _ _ _ _ _ ⟨⟩
  | @other e he =>
    rw [selected?_concat, hs]
    refine ⟨hp.draw_singleton (fun font h => ?_) ?_, ?_⟩
    · rw [he] at h
      cases h
    · rintro _ _ _ _ _ _ rfl
      cases he
    · cases e <;> first | rfl | cases he

theorem Inks.mem_keys {m : Machine σ} {events : List Event} {font : UInt32} (h : m.Inks events (some font))
    (hm : ∀ font, m.graphics.font = some font → font ∈ m.fonts.keys) : font ∈ m.fonts.keys := by
  generalize hf : some font = f at h
  cases h with
  | selection hc =>
    cases hf
    exact Table.contains_iff_mem_keys.1 hc
  | _ => exact hm font hf.symm

variable [FontSource σ]

theorem inks_of_execute {m : Machine σ} {site : Site} {c : Command} {e : Effect σ} (h : m.execute site c = .ok e)
    (hb : ∀ counts back, c ≠ .beginPage counts back) (he : c ≠ .endPage) :
    ∃ events, e.signals = events.map .event ∧ m.Inks events e.machine.graphics.font := by
  cases execute_eq_ok_iff.1 h with
  | beginPage => exact absurd rfl (hb _ _)
  | endPage => exact absurd rfl he
  | typeset hf => exact ⟨[_], rfl, .character hf⟩
  | pop hg =>
    refine ⟨[], rfl, ?_⟩
    rw [(Graphics.pop_eq_some hg).2]
    exact .nothing
  | selectFont hf => exact ⟨[_], rfl, .selection hf⟩
  | rule | special => exact ⟨[_], rfl, .other rfl⟩
  | @defineFont f =>
    obtain ⟨_, _, _, _, hm⟩ := m.defineFont_eq f
    rw [hm]
    exact ⟨[], m.signals_defineFont f, .nothing⟩
  | _ => exact ⟨[], rfl, .nothing⟩

omit [FontSource σ] in
theorem KeepsFonts.keys_subset {m m' : Machine σ} (h : m.KeepsFonts m') : m.fonts.keys ⊆ m'.fonts.keys :=
  fun id hid => Table.contains_iff_mem_keys.1 (h id (Table.contains_iff_mem_keys.2 hid)).1

theorem Does.font_of_beginPage {m m' : Machine σ} {x : Executed} (hx : m.Does x m') {counts : Vector Int32 10}
    {back : Int32} (hc : x.command = .beginPage counts back) : m'.graphics.font = none := by
  have he := hx.executed
  rw [hc] at he
  have hm : _ = m' := congrArg Effect.machine (Except.ok.inj he)
  rw [← hm]
  rfl

/-- Commands that neither draw nor begin a page leave the position, the font and the stack. -/
theorem graphics_of_execute {m : Machine σ} {site : Site} {c : Command} {e : Effect σ} (h : m.execute site c = .ok e)
    (hd : c.draws = false) (hb : ∀ counts back, c ≠ .beginPage counts back) : e.machine.graphics = m.graphics := by
  cases execute_eq_ok_iff.1 h with
  | beginPage => exact absurd rfl (hb _ _)
  | @defineFont f =>
    obtain ⟨_, _, _, _, hm⟩ := m.defineFont_eq f
    rw [hm]
  | endPage | nop | preamble | postamble | postPostamble => rfl
  | _ => cases hd

/-- **The characters of a page that is drawn have the font selected last on it**, which is the font of the machine
that draws. -/
theorem Draws.typeset {b m : Machine σ} {p : Page} (h : b.Draws p m) :
    p.Typeset m.fonts.keys ∧ selected? p.events.toList = m.graphics.font := by
  induction h with
  | begin hx hc =>
    refine ⟨⟨nofun, fun before _ _ _ _ _ _ after hsplit => ?_⟩, (hx.font_of_beginPage hc).symm⟩
    cases before <;> cases hsplit
  | @more p x events m₁ m₂ _ hx hc he ih =>
    obtain ⟨drawn, hsignals, hinks⟩ := inks_of_execute hx.executed (fun _ _ e => by rw [e] at hc; cases hc)
      (fun e => by rw [e] at hc; cases hc)
    obtain rfl : events = drawn := (List.map_inj_right fun _ _ => Signal.event.inj).1 (he.symm.trans hsignals)
    obtain ⟨hp, hs⟩ := hinks.typeset ih.1 ih.2
    exact ⟨hp.mono hx.keepsFonts.keys_subset, hs⟩

theorem HasDrawn.typeset {m : Machine σ} {p : Page} (h : m.HasDrawn p) : p.Typeset m.fonts.keys := by
  obtain ⟨b, m₁, m₂, x, l, hb, hx, -, hr⟩ := h
  exact (hb.typeset.1.mono hx.keepsFonts.keys_subset).mono hr.keepsFonts.keys_subset

/-- **The font of a machine is one of its fonts.** -/
theorem Runs.selected {m m' : Machine σ} {h : List Executed} (hr : m.Runs h m')
    (hm : ∀ font, m.graphics.font = some font → font ∈ m.fonts.keys) :
    ∀ font, m'.graphics.font = some font → font ∈ m'.fonts.keys := by
  induction hr with
  | nil => exact hm
  | @snoc h x m₁ m₂ _ hx ih =>
    intro font hfont
    by_cases hb : ∃ counts back, x.command = .beginPage counts back
    · obtain ⟨counts, back, hb⟩ := hb
      rw [hx.font_of_beginPage hb] at hfont
      cases hfont
    by_cases he : x.command = .endPage
    · have hg := graphics_of_execute hx.executed (by rw [he]; rfl) (by simp [he])
      exact hx.keepsFonts.keys_subset (ih font (hg ▸ hfont))
    obtain ⟨events, -, hinks⟩ := inks_of_execute hx.executed (fun counts back e => hb ⟨counts, back, e⟩) he
    rw [hfont] at hinks
    exact hx.keepsFonts.keys_subset (hinks.mem_keys ih)

end Machine

end Dvi
