import Dvi.Proofs.Machine.Acceptance
import Dvi.Proofs.Machine.Steps
import Dvi.Proofs.Machine.Summary
import Dvi.Proofs.Machine.Truncation
import Dvi.Proofs.Stream.Redefinitions

/-!
# The first definition of a font

The first definition of a font holds. Nothing that comes of a stream shows what later ones say, whether they stand
between pages, on pages or after the postamble.

* `Machine.Does.of_redefinition`, `Machine.exists_does_redefinition`: a font that is defined again is passed over;
* `Interpreter.Beside`: interpreters that have read the same in two streams that differ in such definitions.
  **`Interpreter.Beside.does`**, **`Interpreter.Beside.fails`**: what one does next the other one does;
* `find?_fonts_interpretPartial`: the fonts that come of a stream;
* **`interpretPartial_eq_of_differInRedefinitions`**: the documents and the errors of two such streams are equal.
-/

namespace Dvi

/-! ## Fonts that are defined again -/

namespace Machine

variable {σ : Type} [FontSource σ] {m m' : Machine σ} {f : FontDefinition}

theorem Does.of_redefinition {x : Executed} (hx : m.Does x m') (hc : x.command = .defineFont f)
    (hf : m.fonts.contains f.id = true) : x.signals = [] ∧ ∃ c, m' = m.reading c x.site := by
  have he := hx.executed
  rw [hc] at he
  have heffect := Except.ok.inj he
  refine ⟨(congrArg Effect.signals heffect).symm.trans (signals_defineFont _ f), m'.cursor, ?_⟩
  exact (congrArg Effect.machine heffect).symm.trans (defineFont_of_contains _ f hf)

theorem exists_does_redefinition {site : Site} {c : Cursor} (hread : m.cursor.command? = some (site, .defineFont f, c))
    (ha : m.phase.allows (.defineFont f) = true) (hf : m.fonts.contains f.id = true) :
    ∃ x, m.Does x (m.reading c site) ∧ x.signals = [] := by
  have hx := does_of_execute hread ha rfl
  rw [defineFont_of_contains (m.reading c site) f hf] at hx
  exact ⟨_, hx, signals_defineFont _ f⟩

end Machine

/-! ## Two streams -/

namespace Interpreter

variable {σ : Type} [FontSource σ] {i j : Interpreter σ PageCollector} {m : Machine σ} {x : Executed}

/-- `j` has read what `i` has read, in a stream that differs in redefinitions from that of `i`. -/
structure Beside (i j : Interpreter σ PageCollector) : Prop extends ReadsAlike i j where
  tokens : ∃ ts cs, i.machine.cursor.Beside ts j.machine.cursor ∧ i.machine.Tracks ts cs

namespace Beside

theorem start {data data' : ByteArray} (hd : DifferInRedefinitions data.data.toList data'.data.toList) (source : σ) :
    (Interpreter.start data source {}).Beside (.start data' source {}) :=
  ⟨.start (.refl source), [], [], .start hd, Machine.tracks_start data source⟩

/-- **What one interpreter does, the other one does**, or it defines the same font once more. -/
theorem does (hb : i.Beside j) (hx : i.machine.Does x m) : ∃ x' r, j.machine.Does x' r ∧
    (i.advance [x] m).Beside (j.advance [x'] r) := by
  obtain ⟨ts, cs, hbeside, htracks⟩ := hb.tokens
  obtain ⟨t, hsite, hp, ht⟩ := Cursor.command?_iff_token.1 hx.read
  obtain ⟨cs', -, htracks'⟩ := htracks.follows ht hx.allowed hx.executed
  obtain ⟨command', d, hread, hbeside', hcommand⟩ := hbeside.command? hp ht
  rw [← hsite] at hread
  generalize hc : x.command = command at hcommand
  cases hcommand with
  | same =>
    rw [← hc] at hread
    obtain ⟨x', r, hx', hsame, halike, rfl⟩ := hb.alike.does_of_read (fun _ => hb.expectedId) hx hread
    exact ⟨x', r, hx', hb.toReadsAlike.same hx hx' hsame halike, ts ++ [t], cs', hbeside', htracks'⟩
  | @again f g hid hdefined =>
    -- one of the tokens read defined the font, so both machines have it and take nothing from `f` and `g`
    have hcontains : i.machine.fonts.contains f.id = true := (htracks.fonts f.id).2 hdefined
    have hcontains' : j.machine.fonts.contains g.id = true := by rwa [hid, hb.alike.fonts]
    have ha : j.machine.phase.allows (.defineFont g) = true := by
      have ha := hx.allowed
      rw [hc, ← hb.alike.phase] at ha
      cases hp : j.machine.phase <;> simp [hp, Phase.allows] at ha ⊢
    obtain ⟨hsignals, c, rfl⟩ := hx.of_redefinition hc hcontains
    obtain ⟨x', hx', hsignals'⟩ := Machine.exists_does_redefinition hread ha hcontains'
    refine ⟨x', _, hx', ⟨hb.alike.reading c d x.site, ?_, hb.preamble, hb.postamble, hb.fontMap⟩, ts ++ [t], cs',
      hbeside', htracks'⟩
    rw [advance_singleton, advance_singleton, hsignals, hsignals', List.foldl_nil, List.foldl_nil, hb.device]

/-- **What one interpreter fails of, the other one fails of.** -/
theorem fails (hb : i.Beside j) {err : Error} (hf : i.machine.Fails err) : j.machine.Fails err := by
  obtain ⟨ts, cs, hbeside, -⟩ := hb.tokens
  cases hf with
  | noOpcode read =>
    obtain ⟨d, hread⟩ := hbeside.together_u8.of_error read
    exact .noOpcode hread
  | refused read refusal =>
    obtain ⟨byte, d, hread, rfl, -⟩ := hbeside.together_u8.of_ok read
    rw [← hb.alike.phase, ← hbeside.pos] at refusal
    exact .refused hread refusal
  | noOperands read allowed operands =>
    obtain ⟨d₁, d₂, hread, hoperands⟩ := hbeside.operands_error read operands
    rw [← hb.alike.phase, ← hbeside.pos] at allowed
    exact .noOperands hread allowed hoperands
  | executed read allowed failed =>
    obtain ⟨t, rfl, hp, ht⟩ := Cursor.command?_iff_token.1 read
    obtain ⟨command', d, hread, -, hcommand⟩ := hbeside.command? hp ht
    cases hcommand with
    | same => exact hb.alike.fails_of_read (fun _ => hb.expectedId) hread allowed failed
    | again => cases failed

end Beside

end Interpreter

section InterpretPartial

variable {σ : Type} [FontSource σ]

theorem find?_fonts_interpretPartial (data : ByteArray) (source : σ) (id : UInt32) :
    (interpretPartial data source).document.fonts.find? id =
      firstDefinition? (History.definitions (Machine.start data source).history) id := by
  obtain ⟨h, m, hr, hend⟩ := exists_interpretPartial data source
  have hfonts : m.fonts.find? id = firstDefinition? (History.definitions h) id := hr.summarizes.fonts id
  rw [hr.history_eq]
  obtain ⟨hm, he⟩ | ⟨err, e, hs, he⟩ := hend <;> rw [he]
  · rw [Machine.history_of_isFinal (by rw [hm]; rfl), List.append_nil]
    exact hfonts
  · obtain ⟨_, _, c, site, _, hfailed⟩ := Machine.of_step_eq_error hs
    rw [Machine.history_of_failure hs, List.append_nil, hfailed]
    exact hfonts

/-- **The fonts of a stream are as they were first defined, and streams that differ in nothing but what they say of
fonts defined before give the same document and the same error**, if any. -/
theorem interpretPartial_eq_of_differInRedefinitions {data data' : ByteArray}
    (hd : DifferInRedefinitions data.data.toList data'.data.toList) (source : σ) :
    (∀ id, (interpretPartial data source).document.fonts.find? id =
      firstDefinition? (History.definitions (Machine.start data source).history) id) ∧
    (interpretPartial data' source).document = (interpretPartial data source).document ∧
    (interpretPartial data' source).failure = (interpretPartial data source).failure := by
  have hstart : (Interpreter.start data source {}).Beside (.start data' source {}) := .start hd source
  obtain ⟨hresult, hdocument⟩ := Interpreter.run_eq_of_simulation Interpreter.Beside.does
    Interpreter.Beside.toReadsAlike (fun hb _ hf => hb.fails hf) hstart
  refine ⟨find?_fonts_interpretPartial data source, hdocument, ?_⟩
  simp only [interpretPartial, Interpretation.failure, hresult]

end InterpretPartial

/-- The definition of the font 0 for the size `scale`, with the letter `name` for its name. -/
def fontZero (scale name : UInt8) : Token where
  opcode := .fontDef .one
  operands := [0] ++ [0, 0, 0, 0, 0, 0, 0, scale, 0, 0, 0, 10] ++ [0, 1] ++ [name]
  prescribed := ⟨_, _, _, _, _, rfl, rfl, rfl, rfl⟩

/-- The tokens of a stream that defines the font 0, and again before a page, on the page and after the postamble. -/
def againTokens (again : Token) : List Token :=
  let units := [1, 131, 146, 192, 28, 59, 0, 0, 0, 0, 3, 232]
  [⟨.preamble, [2] ++ units ++ [0] ++ [], ⟨_, _, _, _, rfl, rfl, rfl⟩⟩, fontZero 10 97, again,
    ⟨.beginPage, List.replicate 44 255, rfl⟩, ⟨.font .one, [0], rfl⟩, ⟨.set .one, [65], rfl⟩, again,
    ⟨.set .one, [65], rfl⟩, ⟨.endPage, [], rfl⟩,
    ⟨.postamble, List.replicate 28 0, rfl⟩, again, ⟨.postPostamble, [0, 0, 0, 0, 2], rfl⟩]

/-- The stream with another definition, byte for byte. -/
def againStream (again : Token) : ByteArray := ⟨((againTokens again).flatMap Token.bytes).toArray⟩

/-- A larger size and another name in later definitions do not make the letters of a page wider. -/
theorem interpretPartial_eq_of_differInRedefinitions_letterA :
    DifferInRedefinitions (againStream (fontZero 10 97)).data.toList (againStream (fontZero 20 98)).data.toList ∧
    againStream (fontZero 20 98) ≠ againStream (fontZero 10 97) ∧
    (interpretPartial (againStream (fontZero 20 98)) letterA).document =
      (interpretPartial (againStream (fontZero 10 97)) letterA).document ∧
    (interpretPartial (againStream (fontZero 20 98)) letterA).failure =
      (interpretPartial (againStream (fontZero 10 97)) letterA).failure ∧
    (interpretPartial (againStream (fontZero 10 97)) letterA).failure = none ∧
    ((interpretPartial (againStream (fontZero 20 98)) letterA).document.fonts.find? 0).map (·.scale) = some 10 ∧
    (interpretPartial (againStream (fontZero 10 97)) letterA).document.pages.map (·.events.toList) =
      [[.fontSelect 0, .char .set 0 0 0 65 (some 10), .char .set 10 0 0 65 (some 10)]] := by
  have houtline : ∀ k, FontDefinition.IsOutline .one k →
      (fontZero 20 98).operands[k]? = (fontZero 10 97).operands[k]? := by
    rintro k (hk | rfl | rfl)
    · obtain rfl : k = 0 := by simpa [Width.bytes] using hk
      rfl
    · rfl
    · rfl
  have hredefined : Redefined [] (againTokens (fontZero 10 97)) (againTokens (fontZero 20 98)) := by
    refine .same (.same (.again rfl rfl houtline ⟨fontZero 10 97, by simp, rfl⟩ ?_))
    refine .same (.same (.same (.again rfl rfl houtline ⟨fontZero 10 97, by simp, rfl⟩ ?_)))
    exact .same (.same (.same (.again rfl rfl houtline ⟨fontZero 10 97, by simp, rfl⟩ (.same (.nil _)))))
  have hdiffer : DifferInRedefinitions (againStream (fontZero 10 97)).data.toList
      (againStream (fontZero 20 98)).data.toList := by
    simpa [againStream] using hredefined.differInRedefinitions []
  obtain ⟨hfonts, hdocument, hfailure⟩ := interpretPartial_eq_of_differInRedefinitions hdiffer letterA
  have hnone : (interpretPartial (againStream (fontZero 10 97)) letterA).failure.isNone = true := by decide +kernel
  refine ⟨hdiffer, by decide +kernel, hdocument, hfailure, Option.isNone_iff_eq_none.1 hnone, ?_, by decide +kernel⟩
  rw [hdocument, hfonts 0]
  decide +kernel

end Dvi
