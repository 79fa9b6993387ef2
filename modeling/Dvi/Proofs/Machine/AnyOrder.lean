import Dvi.Proofs.Machine.Calls
import Dvi.Proofs.Machine.RandomAccess

/-!
# Pages in any order

Pages that define no fonts but those of the end of the stream can be read by one interpreter in any order, and whatever
came of the calls before.

* `Interpreter.alone`, `Interpreter.together`: calls for pages, each on an interpreter of its own or all on one;
* `Interpreter.Ready.page`: one call on an interpreter that is prepared is a call on an interpreter of its own;
* **`Interpreter.calls_page_eq`**: so are all calls, and the pages are those of the interpreters apart.
-/

namespace Dvi

namespace Interpreter

variable {σ : Type} [FontSource σ] {i b : Interpreter σ PageCollector} {data : ByteArray}

/-- The call for a page on an interpreter of its own. -/
def alone (data : ByteArray) (source : σ) (offset : Nat) :
    Except Error (Option Bool) × Interpreter σ PageCollector :=
  (start data source {}).call (.page offset)

/-- The calls for pages on one interpreter. -/
def together (data : ByteArray) (source : σ) (offsets : List Nat) :
    List (Except Error (Option Bool)) × Interpreter σ PageCollector :=
  (start data source {}).calls (offsets.map .page)

theorem Ready.call_page (h : i.Ready data) (offset : Nat) :
    i.call (.page offset) = ((i.readPageAt offset).1.map fun _ => none, (i.readPageAt offset).2) := by
  simp only [call, h.interpretPage]

/-- **One call**: on an interpreter that is prepared, whatever it has read, it has the same answer as on `b`, which has
drawn nothing, and adds the same page; and it can be made again. -/
theorem Ready.page (h : i.Ready data) (hb : b.Ready data) (hdevice : b.device = {})
    (hfonts : i.machine.SameFonts b.machine) {offset : Nat}
    (hk : ∀ id, (b.call (.page offset)).2.machine.fonts.contains id = true → b.machine.fonts.contains id = true) :
    (i.call (.page offset)).1 = (b.call (.page offset)).1 ∧ (i.call (.page offset)).2.Ready data ∧
      (i.call (.page offset)).2.machine.SameFonts b.machine ∧
      ((i.call (.page offset)).1 = .ok none → i.device.current = none →
        (i.call (.page offset)).2.device.current = none ∧
        (i.call (.page offset)).2.machine.phase = .betweenPages ∧
        (i.call (.page offset)).2.device.pages = i.device.pages ++ (b.call (.page offset)).2.document.pages) := by
  rw [hb.call_page] at hk ⊢
  rw [h.call_page]
  have hread : SameReading i b (i.readPageAt offset) (b.readPageAt offset) :=
    .readPageAt hfonts (hb.data.trans h.data.symm) offset
  refine ⟨by rw [hread.result], h.readPageAt offset, hread.fonts.trans (sameFonts_readPageAt hk).symm, ?_⟩
  intro hok hcurrent
  have hok : (i.readPageAt offset).1 = .ok () := by
    rcases hr : (i.readPageAt offset).1 with e | _
    · rw [hr] at hok
      cases hok
    · rfl
  obtain ⟨p, hi, hb', hphase⟩ := hread.page hok
  refine ⟨by rw [hi], hphase, ?_⟩
  simp only [document, takePages, hi, hb', hdevice, PageCollector.pages, hcurrent, Device.takePages]
  simp

theorem Ready.pages (h : i.Ready data) (hb : b.Ready data) (hdevice : b.device = {})
    (hfonts : i.machine.SameFonts b.machine) {offsets : List Nat}
    (hk : ∀ o ∈ offsets, ∀ id, (b.call (.page o)).2.machine.fonts.contains id = true →
      b.machine.fonts.contains id = true) :
    (i.calls (offsets.map .page)).1 = offsets.map (fun o => (b.call (.page o)).1) ∧
      ((∀ r ∈ (i.calls (offsets.map .page)).1, r = .ok none) → i.device.current = none →
        (offsets ≠ [] → (i.calls (offsets.map .page)).2.machine.phase = .betweenPages) ∧
        (i.calls (offsets.map .page)).2.device.pages =
          i.device.pages ++ offsets.flatMap fun o => (b.call (.page o)).2.document.pages) := by
  induction offsets generalizing i with
  | nil => simp [calls]
  | cons o os ih =>
    obtain ⟨hanswer, hready, hfonts', hpage⟩ := h.page hb hdevice hfonts (hk o List.mem_cons_self)
    obtain ⟨hanswers, hpages⟩ := ih hready hfonts' fun o ho => hk o (List.mem_cons_of_mem _ ho)
    simp only [List.map_cons, calls, List.flatMap_cons]
    refine ⟨by rw [hanswer, hanswers], fun hok hcurrent => ?_⟩
    obtain ⟨hcurrent', hphase, hadded⟩ := hpage (hok _ List.mem_cons_self) hcurrent
    obtain ⟨hlast, hall⟩ := hpages (fun r hr => hok r (List.mem_cons_of_mem _ hr)) hcurrent'
    refine ⟨fun _ => ?_, by rw [hall, hadded, List.append_assoc]⟩
    -- the last call leaves the interpreter between pages, be it this one or a later one
    cases os with
    | nil => exact hphase
    | cons o' os => exact hlast (by simp)

/-- **Pages can be read in any order**, if those that are read define no fonts but those of the end of the stream. Each
call has the answer that it has on an interpreter of its own, also after calls that have failed; if none fails, the pages
are those of the interpreters apart. -/
theorem calls_page_eq {data : ByteArray} {source source' : σ} {answer : String → ResolvedFont} {site : Site}
    {p : Preamble} {c : Cursor} {t : Trailer} {offsets : List Nat}
    (hpre : (Cursor.start data).command? = some (site, .preamble p, c))
    (ht : Trailer.locate.result (.start data) = .ok t) (hs : AnswersByName source answer)
    (hs' : AnswersByName source' answer) (hne : offsets ≠ [])
    (hfonts : ∀ o ∈ offsets, ∀ id, (alone data source' o).2.machine.fonts.contains id = true →
      ∃ f ∈ t.fonts, f.id = id) :
    (together data source offsets).1 = offsets.map (fun o => (alone data source' o).1) ∧
      ((∀ r ∈ (together data source offsets).1, r = .ok none) →
        (together data source offsets).2.machine.phase = .betweenPages ∧
        (together data source offsets).2.document.pages =
          offsets.flatMap fun o => (alone data source' o).2.document.pages) := by
  have hread := readPreamble_of_command? hpre source ({} : PageCollector)
  have hread' := readPreamble_of_command? hpre source' ({} : PageCollector)
  obtain ⟨i, hi, hidevice, hifonts, hicall⟩ := exists_setUp hread ht
  obtain ⟨b, hb, hbdevice, hbfonts, hbcall⟩ := exists_setUp hread' ht
  have hequipped := sameFonts_equipped data (hs.alike hs') t.fonts
  have halone : ∀ o, alone data source' o = b.call (.page o) := fun o => by
    simp only [alone, call, hbcall, hb.interpretPage]
  -- the set-up is part of the first call
  have htogether : together data source offsets = i.calls (offsets.map .page) := by
    obtain ⟨o, os, rfl⟩ := List.exists_cons_of_ne_nil hne
    have hfirst : (start data source ({} : PageCollector)).call (.page o) = i.call (.page o) := by
      simp only [call, hicall, hi.interpretPage]
    simp only [together, List.map_cons, calls, hfirst]
  simp only [halone] at hfonts ⊢
  obtain ⟨hanswers, hpages⟩ := hi.pages hb hbdevice (hifonts.symm.trans (hequipped.trans hbfonts))
    fun o ho id hid => by
      rw [hbfonts.fonts]
      exact (contains_equipped data source' t.fonts id).2 (hfonts o ho id hid)
  rw [htogether]
  refine ⟨hanswers, fun hok => ?_⟩
  obtain ⟨hphase, hall⟩ := hpages hok (by rw [hidevice])
  refine ⟨hphase hne, ?_⟩
  rw [hidevice] at hall
  exact hall

/-- The two pages backwards, one of them again, and in between two offsets without a page. -/
theorem calls_page_eq_twoPages :
    (∃ site p c t, (Cursor.start twoPages).command? = some (site, .preamble p, c) ∧
      Trailer.locate.result (.start twoPages) = .ok t ∧ AnswersByName NoFonts.mk (fun _ => {}) ∧
      ∀ o ∈ [96, 5, 32, 1000, 96], ∀ id, (alone twoPages NoFonts.mk o).2.machine.fonts.contains id = true →
        ∃ f ∈ t.fonts, f.id = id) ∧
    (together twoPages NoFonts.mk [96, 5, 32, 1000, 96]).1 =
      [96, 5, 32, 1000, 96].map (fun o => (alone twoPages NoFonts.mk o).1) ∧
    (together twoPages NoFonts.mk [96, 5, 32, 1000, 96]).1 =
      [.ok none, .error (.unexpectedOpcode ⟨5, 192⟩), .ok none, .error (.outOfRange 1000 198), .ok none] ∧
    (together twoPages NoFonts.mk [96, 32, 96]).2.machine.phase = .betweenPages ∧
    (together twoPages NoFonts.mk [96, 32, 96]).2.document.pages =
      [96, 32, 96].flatMap fun o => (alone twoPages NoFonts.mk o).2.document.pages := by
  obtain ⟨site, p, c, hpre⟩ : ∃ site p c, (Cursor.start twoPages).command? = some (site, .preamble p, c) := by
    have h : ((Cursor.start twoPages).command?.bind fun x => x.2.1.preamble?).isSome = true := by decide +kernel
    obtain ⟨p, h⟩ := Option.isSome_iff_exists.1 h
    obtain ⟨⟨site, command, c⟩, hread, hp⟩ := Option.bind_eq_some_iff.1 h
    exact ⟨site, p, c, Command.eq_of_preamble? hp ▸ hread⟩
  obtain ⟨t, ht, hids⟩ : ∃ t, Trailer.locate.result (.start twoPages) = .ok t ∧ t.fonts.map (·.id) = [0] := by
    have h : (Trailer.locate.result (.start twoPages)).map (·.fonts.map (·.id)) = .ok [0] := by decide +kernel
    rcases hl : Trailer.locate.result (.start twoPages) with e | t <;> rw [hl] at h
    · cases h
    · exact ⟨t, rfl, Except.ok.inj h⟩
  have hkeys : ∀ o ∈ [96, 5, 32, 1000, 96], (alone twoPages NoFonts.mk o).2.machine.fonts.keys = [0] := by
    decide +kernel
  have hfonts : ∀ o ∈ [96, 5, 32, 1000, 96], ∀ id,
      (alone twoPages NoFonts.mk o).2.machine.fonts.contains id = true → ∃ f ∈ t.fonts, f.id = id := by
    intro o ho id hid
    have hid := Table.contains_iff_mem_keys.1 hid
    rw [hkeys o ho, ← hids] at hid
    exact List.mem_map.1 hid
  have hall := calls_page_eq hpre ht answersByName_noFonts answersByName_noFonts (by simp) hfonts
  have hsome : ∀ o ∈ [96, 32, 96], o ∈ [96, 5, 32, 1000, 96] := by decide
  have hgood := calls_page_eq hpre ht answersByName_noFonts answersByName_noFonts (by simp)
    fun o ho => hfonts o (hsome o ho)
  have hanswers : ∀ r ∈ (together twoPages NoFonts.mk [96, 32, 96]).1, r = .ok none := by decide +kernel
  exact ⟨⟨site, p, c, t, hpre, ht, answersByName_noFonts, hfonts⟩, hall.1, by decide +kernel, hgood.2 hanswers⟩

end Interpreter

end Dvi
