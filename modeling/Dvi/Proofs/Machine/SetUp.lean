import Dvi.Proofs.Machine.SinglePages
import Mathlib.Control.Monad.Basic

/-!
# Before the first single page

The first call for a page reads the preamble and the end of the stream. Whether that was tried is kept in two places,
the phase and the flag for random access, and a call that fails leaves them as if the set-up were done, in part at
least: the next call reads the page without it.

* `Interpreter.equipped`: an interpreter that has nothing but fonts. **`Interpreter.exists_setUp`**: after the set-up a
  page is read as by one with the fonts from the end of the stream;
* `Interpreter.told`: what a call for a page tells;
* **`Interpreter.told_after_failure`**: what the second call tells, if the set-up has failed in the first one.
-/

namespace Dvi

namespace Interpreter

section Parts

variable {σ δ : Type} [FontSource σ] [Device δ] {i j : Interpreter σ δ}

/-! ## Definitions -/

theorem defineFonts_eq (i : Interpreter σ δ) (fonts : List FontDefinition) : ∃ source table metrics fontMap,
    (i.defineFonts fonts).machine = { i.machine with source, fonts := table, metrics, fontMap } := by
  induction fonts generalizing i with
  | nil => exact ⟨_, _, _, _, rfl⟩
  | cons f fs ih =>
    obtain ⟨_, _, _, _, hm⟩ := i.machine.defineFont_eq f
    obtain ⟨source, table, metrics, fontMap, he⟩ := ih (i.apply (i.machine.defineFont f))
    refine ⟨source, table, metrics, fontMap, he.trans ?_⟩
    simp only [apply_eq, hm]

theorem sameFonts_defineFonts (h : i.machine.SameFonts j.machine) (fonts : List FontDefinition) :
    (i.defineFonts fonts).machine.SameFonts (j.defineFonts fonts).machine := by
  induction fonts generalizing i j with
  | nil => exact h
  | cons f fs ih =>
    exact ih (i := i.apply (i.machine.defineFont f)) (j := j.apply (j.machine.defineFont f)) (h.defineFont f)

theorem contains_defineFonts (i : Interpreter σ δ) (fonts : List FontDefinition) (id : UInt32) :
    (i.defineFonts fonts).machine.fonts.contains id = true ↔
      i.machine.fonts.contains id = true ∨ ∃ f ∈ fonts, f.id = id := by
  induction fonts generalizing i with
  | nil => simp [defineFonts]
  | cons f fs ih =>
    refine (ih (i.apply (i.machine.defineFont f))).trans ?_
    have hf : (i.apply (i.machine.defineFont f)).machine.fonts.contains id = true ↔ _ :=
      i.machine.contains_defineFont f id
    rw [hf]
    simp only [List.mem_cons, exists_eq_or_imp, or_assoc, eq_comm (a := id)]

/-! ## The preamble -/

/-- There are no fonts in the preamble, and it is tried once. -/
structure TriedPreamble (i j : Interpreter σ δ) : Prop where
  undrawn : i.Undrawn j
  fonts : i.machine.SameFonts j.machine
  phase : j.machine.phase ≠ .awaitPreamble
  randomAccess : j.machine.randomAccess = i.machine.randomAccess

theorem triedPreamble (i : Interpreter σ δ) : i.TriedPreamble i.readPreamble.2 := by
  suffices h : i.machine.SameFonts i.readPreamble.2.machine ∧ i.readPreamble.2.machine.phase ≠ .awaitPreamble ∧
      i.readPreamble.2.machine.randomAccess = i.machine.randomAccess from
    ⟨i.undrawn_readPreamble, h.1, h.2.1, h.2.2⟩
  unfold readPreamble
  by_cases hp : i.machine.phase = .awaitPreamble
  · rw [if_pos hp]
    rcases hs : i.step with ⟨err | more, j⟩ <;> dsimp only
    · obtain ⟨e, hm, rfl⟩ := exists_machine_step_of_failure hs
      obtain ⟨_, _, c, site, _, he⟩ := Machine.of_step_eq_error hm
      refine ⟨Machine.sameFonts_of_failure hm, ?_, ?_⟩ <;> rw [he]
      nofun
    · obtain ⟨x, hx, _⟩ := exists_does_of_step (by simp [hp, Phase.isFinal]) hs
      obtain ⟨p, hc⟩ := Phase.exists_preamble_of_allows (hp ▸ hx.allowed)
      have hphase : j.machine.phase = .betweenPages := by rw [hx.phase, hc, Phase.next]
      refine ⟨?_, by simp [hphase], (Machine.frame_of_execute hx.executed).1⟩
      obtain ⟨hfonts, hmetrics, hsource⟩ := hx.fonts_eq (hc ▸ rfl)
      exact ⟨hfonts, hmetrics, hsource ▸ .refl _⟩
  · rw [if_neg hp]
    exact ⟨.refl _, hp, rfl⟩

theorem readPreamble_of_command? {data : ByteArray} {site : Site} {p : Preamble} {c : Cursor}
    (h : (Cursor.start data).command? = some (site, .preamble p, c)) (source : σ) (device : δ) :
    (start data source device).readPreamble.1 = .ok () := by
  have hd := Machine.does_of_execute (m := Machine.start data source) h rfl rfl
  have hp : (start data source device).machine.phase = .awaitPreamble := rfl
  have hs := step_of_does (i := start data source device) hd
  rw [readPreamble, if_pos hp, hs]

/-! ## The end of the stream -/

/-- The interpreter that has looked for the end of the stream and stopped at `c`. -/
def searched (i : Interpreter σ δ) (c : Cursor) : Interpreter σ δ :=
  { i.warn (Trailer.warnings i.machine.cursor.data) with
    machine := { i.machine with cursor := c, randomAccess := true } }

theorem readTrailer_eq (hr : i.machine.randomAccess = false) : i.readTrailer =
    match Trailer.locate i.machine.cursor with
    | .error e c => (.error e, i.searched c)
    | .ok t c =>
      let j := (i.searched c).defineFonts t.fonts
      (.ok (), { j with machine := { j.machine with postamble := j.machine.postamble <|> some t.postamble } }) := by
  unfold readTrailer
  rw [if_neg (by simp [hr])]
  rfl

/-- The end of the stream is tried once. If it is found, the fonts there are defined. -/
theorem readTrailer_cases (hr : i.machine.randomAccess = false) : i.readTrailer.2.machine.randomAccess = true ∧
    i.readTrailer.2.machine.phase = i.machine.phase ∧
    ((∃ e, Trailer.locate.result (.start i.machine.cursor.data) = .error e ∧ i.readTrailer.1 = .error e ∧
      i.machine.SameFonts i.readTrailer.2.machine) ∨
    ∃ t, Trailer.locate.result (.start i.machine.cursor.data) = .ok t ∧ i.readTrailer.1 = .ok () ∧
      (i.defineFonts t.fonts).machine.SameFonts i.readTrailer.2.machine) := by
  have hlocate : Trailer.locate.result i.machine.cursor = Trailer.locate.result (.start i.machine.cursor.data) :=
    Trailer.absolute_locate rfl
  rw [← hlocate, readTrailer_eq hr]
  unfold Scan.result
  rcases Trailer.locate i.machine.cursor with ⟨t, c⟩ | ⟨e, c⟩ <;> dsimp only
  · have hsearched : i.machine.SameFonts (i.searched c).machine := ⟨rfl, rfl, .refl _⟩
    have hfonts := sameFonts_defineFonts hsearched t.fonts
    obtain ⟨_, _, _, _, hm⟩ := (i.searched c).defineFonts_eq t.fonts
    have hphase : ((i.searched c).defineFonts t.fonts).machine.phase = i.machine.phase := by rw [hm]; rfl
    have hrandom : ((i.searched c).defineFonts t.fonts).machine.randomAccess = true := by rw [hm]; rfl
    exact ⟨hrandom, hphase, .inr ⟨t, rfl, rfl, hfonts.fonts, hfonts.metrics, hfonts.source⟩⟩
  · exact ⟨rfl, rfl, .inl ⟨e, rfl, rfl, rfl, rfl, .refl _⟩⟩

/-- The end of the stream is wanted and is not found. -/
def MissesEnd (i : Interpreter σ δ) : Prop :=
  i.machine.randomAccess = false ∧ ∃ e, Trailer.locate.result (.start i.machine.cursor.data) = .error e

theorem missesEnd_iff (i : Interpreter σ δ) : i.MissesEnd ↔ ∃ e, i.readTrailer.1 = .error e := by
  rcases hr : i.machine.randomAccess with _ | _
  · obtain ⟨_, _, ⟨e, he, hresult, _⟩ | ⟨t, ht, hresult, _⟩⟩ := readTrailer_cases hr
    · simp [MissesEnd, hr, he, hresult]
    · simp [MissesEnd, hr, ht, hresult]
  · have htrailer : i.readTrailer = (.ok (), i) := if_pos hr
    simp [MissesEnd, hr, htrailer]

theorem phase_readTrailer (i : Interpreter σ δ) : i.readTrailer.2.machine.phase = i.machine.phase := by
  rcases hr : i.machine.randomAccess with _ | _
  · exact (readTrailer_cases hr).2.1
  · have htrailer : i.readTrailer = (.ok (), i) := if_pos hr
    rw [htrailer]

end Parts

variable {σ : Type} [FontSource σ] {i j : Interpreter σ PageCollector} {data : ByteArray} {source : σ} {t : Trailer}

/-! ## The whole set-up -/

/-- An interpreter at the front of a stream that has some fonts already. -/
def equipped (data : ByteArray) (source : σ) (fonts : List FontDefinition) : Interpreter σ PageCollector :=
  (start data source {}).defineFonts fonts

theorem contains_equipped (data : ByteArray) (source : σ) (fonts : List FontDefinition) (id : UInt32) :
    (equipped data source fonts).machine.fonts.contains id = true ↔ ∃ f ∈ fonts, f.id = id := by
  have hstart : (start data source ({} : PageCollector)).machine.fonts.contains id = false := rfl
  rw [equipped, contains_defineFonts, hstart]
  simp

theorem sameFonts_equipped (data : ByteArray) {source source' : σ} (hs : AnswersAlike source source')
    (fonts : List FontDefinition) :
    (equipped data source fonts).machine.SameFonts (equipped data source' fonts).machine := by
  have hstart : (start data source ({} : PageCollector)).machine.SameFonts
    (start data source' ({} : PageCollector)).machine := ⟨rfl, rfl, hs⟩
  exact sameFonts_defineFonts hstart fonts

theorem undrawn_equipped (data : ByteArray) (source : σ) (fonts : List FontDefinition) :
    (start data source ({} : PageCollector)).Undrawn (equipped data source fonts) :=
  undrawn_defineFonts _ fonts

/-- **After the set-up a page is read as with the fonts from the end of the stream.** -/
theorem exists_setUp (hpre : (start data source ({} : PageCollector)).readPreamble.1 = .ok ())
    (ht : Trailer.locate.result (.start data) = .ok t) : ∃ b : Interpreter σ PageCollector, b.Ready data ∧
      b.device = {} ∧ (equipped data source t.fonts).machine.SameFonts b.machine ∧
      ∀ offset, (start data source ({} : PageCollector)).interpretPage offset = b.readPageAt offset := by
  have htried := (start data source ({} : PageCollector)).triedPreamble
  unfold interpretPage
  rcases hp : (start data source ({} : PageCollector)).readPreamble with ⟨r, i⟩
  rw [hp] at hpre htried
  obtain rfl : r = .ok () := hpre
  have hdata : i.machine.cursor.data = data := htried.undrawn.data
  have hundrawn := htried.undrawn.trans i.undrawn_readTrailer
  obtain ⟨hrandom, hphase, htrailer⟩ := readTrailer_cases htried.randomAccess
  rw [hdata, ht] at htrailer
  rcases htr : i.readTrailer with ⟨r, b⟩
  rw [htr] at hrandom hphase htrailer hundrawn
  obtain ⟨e, he, _⟩ | ⟨t', ht', hok, hfonts⟩ := htrailer
  · cases he
  cases ht'
  obtain rfl : r = .ok () := hok
  refine ⟨b, ⟨hundrawn.data, fun h => htried.phase (hphase.symm.trans h), hrandom⟩, hundrawn.device,
    (sameFonts_defineFonts htried.fonts t.fonts).trans hfonts, fun offset => ?_⟩
  simp only [htr]

/-! ## After a set-up that failed -/

/-- What a call for a page tells: the pages there are then, or the error. -/
def told (r : Except Error Unit × Interpreter σ PageCollector) : Except Error (List Page) :=
  r.1.map fun _ => r.2.document.pages

theorem SameReading.told_eq {r s : Except Error Unit × Interpreter σ PageCollector} (h : SameReading i j r s)
    (hd : j.device = i.device) : told s = told r := by
  obtain ⟨r₁, i'⟩ := r
  obtain ⟨s₁, j'⟩ := s
  obtain ⟨hresult, _, hpage⟩ := h
  dsimp only at hresult hpage
  subst hresult
  rcases s₁ with e | _
  · rfl
  · obtain ⟨p, hi, hj, _⟩ := hpage rfl
    simp only [told, document, takePages, hi, hj, hd]

theorem told_readPageAt {fonts : List FontDefinition} (hf : (equipped data source fonts).machine.SameFonts i.machine)
    (hu : (start data source ({} : PageCollector)).Undrawn i) (offset : Nat) :
    told (i.readPageAt offset) = told ((equipped data source fonts).readPageAt offset) := by
  have hequipped := undrawn_equipped data source fonts
  have hread := SameReading.readPageAt hf (hu.data.trans hequipped.data.symm) offset
  exact hread.told_eq (hu.device.trans hequipped.device.symm)

/-- The second of two calls for pages. -/
def secondCall (data : ByteArray) (source : σ) (o₁ o₂ : Nat) : Except Error Unit × Interpreter σ PageCollector :=
  ((start data source ({} : PageCollector)).interpretPage o₁).2.interpretPage o₂

/-- **What the second call for a page tells, if the set-up has failed in the first one.** A preamble that cannot be
read is not missed: only the end of the stream is. If that was not found, it is not missed either, and the page is read
without any fonts. -/
theorem told_after_failure (data : ByteArray) (source : σ) (o₁ o₂ : Nat) (e : Error) :
    let i := start data source ({} : PageCollector)
    (i.readPreamble.1 = .error e → (i.interpretPage o₁).1 = .error e ∧
      told (secondCall data source o₁ o₂) =
        (Trailer.locate.result (.start data)).bind fun t => told ((equipped data source t.fonts).readPageAt o₂)) ∧
    (i.readPreamble.1 = .ok () → Trailer.locate.result (.start data) = .error e →
      (i.interpretPage o₁).1 = .error e ∧
        told (secondCall data source o₁ o₂) = told ((equipped data source []).readPageAt o₂)) := by
  intro i
  have hcall : secondCall data source o₁ o₂ = (i.interpretPage o₁).2.interpretPage o₂ := rfl
  rw [hcall]
  have htried := i.triedPreamble
  rcases hpre : i.readPreamble with ⟨r, i₁⟩
  rw [hpre] at htried
  have hdata : i₁.machine.cursor.data = data := htried.undrawn.data
  have hundrawn := htried.undrawn.trans i₁.undrawn_readTrailer
  obtain ⟨hrandom, hphase, htrailer⟩ := readTrailer_cases htried.randomAccess
  rw [hdata] at htrailer
  rcases htr : i₁.readTrailer with ⟨r', i₂⟩
  rw [htr] at hundrawn hrandom hphase htrailer
  refine ⟨?_, ?_⟩
  · -- the preamble is tried no more, and the end of the stream for the first time
    rintro rfl
    have hfirst : i.interpretPage o₁ = (.error e, i₁) := by simp only [interpretPage, hpre]
    have hsecond : i₁.readPreamble = (.ok (), i₁) := if_neg htried.phase
    rw [hfirst]
    refine ⟨rfl, ?_⟩
    obtain ⟨e', he, rfl, _⟩ | ⟨t, ht, rfl, hfonts⟩ := htrailer
    · simp only [interpretPage, hsecond, htr, he]
      rfl
    · have htold := told_readPageAt ((sameFonts_defineFonts htried.fonts t.fonts).trans hfonts) hundrawn o₂
      simp only [interpretPage, hsecond, htr, ht]
      exact htold
  · -- neither is tried any more
    rintro rfl hlocate
    obtain ⟨e', he, rfl, hfonts⟩ | ⟨t, ht, _⟩ := htrailer
    · obtain rfl : e' = e := Except.error.inj (he.symm.trans hlocate)
      have hfirst : i.interpretPage o₁ = (.error e', i₂) := by simp only [interpretPage, hpre, htr]
      have hready : i₂.Ready data := ⟨hundrawn.data, fun h => htried.phase (hphase.symm.trans h), hrandom⟩
      have hequipped : (equipped data source []).machine.SameFonts i₂.machine := htried.fonts.trans hfonts
      rw [hfirst, hready.interpretPage]
      exact ⟨rfl, told_readPageAt hequipped hundrawn o₂⟩
    · rw [hlocate] at ht
      cases ht

end Interpreter

/-- The stream of two pages, with another byte in the place of the first one. -/
def twoPagesSpoiled : ByteArray := ⟨(0 :: twoPages.data.toList.tail).toArray⟩

/-- The stream of two pages, cut off behind the second one. -/
def twoPagesEndless : ByteArray := ⟨(twoPages.data.toList.take 142).toArray⟩

namespace Interpreter

/-- Neither the preamble nor the end of the stream is missed. -/
theorem told_after_failure_twoPages :
    ((start twoPagesSpoiled NoFonts.mk ({} : PageCollector)).readPreamble.1 = .error (.malformedHeader ⟨0, 0⟩) ∧
      told (secondCall twoPagesSpoiled NoFonts.mk 32 32) = (Trailer.locate.result (.start twoPagesSpoiled)).bind
        fun t => told ((equipped twoPagesSpoiled NoFonts.mk t.fonts).readPageAt 32)) ∧
    (start twoPagesEndless NoFonts.mk ({} : PageCollector)).readPreamble.1 = .ok () ∧
    Trailer.locate.result (.start twoPagesEndless) = .error (.malformedHeader ⟨136, 0⟩) ∧
    told (secondCall twoPagesEndless NoFonts.mk 32 96) =
      told ((equipped twoPagesEndless NoFonts.mk []).readPageAt 96) := by
  have hspoiled : (start twoPagesSpoiled NoFonts.mk ({} : PageCollector)).readPreamble.1 =
      .error (.malformedHeader ⟨0, 0⟩) := by decide +kernel
  have hendless : (start twoPagesEndless NoFonts.mk ({} : PageCollector)).readPreamble.1 = .ok () := by
    decide +kernel
  have hlocate : Trailer.locate.result (.start twoPagesEndless) = .error (.malformedHeader ⟨136, 0⟩) := by
    decide +kernel
  exact ⟨⟨hspoiled, ((told_after_failure _ _ 32 32 _).1 hspoiled).2⟩, hendless, hlocate,
    ((told_after_failure _ _ 32 96 _).2 hendless hlocate).2⟩

/-- The first call fails because of the preamble, or because of the end of the stream. The second call reads a page, in
the first case without a preamble and in the second case without any fonts. -/
theorem page_without_setUp_twoPages :
    (((start twoPagesSpoiled NoFonts.mk ({} : PageCollector)).interpretPage 32).1 =
        .error (.malformedHeader ⟨0, 0⟩) ∧
      (told (secondCall twoPagesSpoiled NoFonts.mk 32 32)).map (·.map (·.offset)) = .ok [32] ∧
      (secondCall twoPagesSpoiled NoFonts.mk 32 32).2.document.preamble.isNone = true) ∧
    ((start twoPagesEndless NoFonts.mk ({} : PageCollector)).interpretPage 32).1 =
        .error (.malformedHeader ⟨136, 0⟩) ∧
      (told (secondCall twoPagesEndless NoFonts.mk 32 96)).map (·.map (·.offset)) = .ok [96] ∧
      (secondCall twoPagesEndless NoFonts.mk 32 96).2.document.fonts.isEmpty = true := by
  decide +kernel

end Interpreter

end Dvi
