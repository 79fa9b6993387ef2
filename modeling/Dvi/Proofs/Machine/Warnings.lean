import Dvi.Proofs.Machine.Steps
import Dvi.Proofs.Machine.Summary
import Mathlib.Data.List.TakeWhile

/-!
# Warnings

Most warnings about a stream are about a value that the stream declares and that is not what was read before. They are
exact: a command raises one if and only if the value differs from what the commands before it come to.

* `Executed.Warns`: the warnings that a command has to raise after others;
* **`Machine.Does.warns`**: it raises these;
* **`Interpreter.warnings_of_history`**: so the warnings of a stream are those of its commands, in order.
-/

namespace Dvi

open Read

/-- The warning, unless a condition holds. -/
def Warning.unless (w : Warning) (c : Prop) [Decidable c] : List Warning := if c then [] else [w]

/-- The warnings of a command in the stream `data`, after the commands `h`. -/
def Executed.Warns {σ : Type} [FontSource σ] (data : ByteArray) (source : σ) (h : List Executed) (x : Executed) :
    Prop :=
  match x.command with
  | .beginPage _ back =>
    -- the page begun last, -1 before the first
    x.warnings = Warning.unless (.backPointer (History.pageCount h + 1) (.ofInt (History.lastPage h)) back)
      (back.toInt = History.lastPage h)
  | .postamble p =>
    x.warnings =
      Warning.unless (.lastPage (.ofInt (History.lastPage h)) p.lastPage) (p.lastPage.toInt = History.lastPage h) ++
      Warning.unless (.pageCount p.totalPages (History.pageCount h)) (p.totalPages.toNat = History.pageCount h) ++
      Warning.unless (.stackDepth p.maxStackDepth (History.deepest h)) (History.deepest h ≤ p.maxStackDepth.toNat) ++
      Warning.unless .units (∀ q ∈ latest? (·.command.preamble?) h,
        q.numerator = p.numerator ∧ q.denominator = p.denominator ∧ q.magnification = p.magnification)
  | .defineFont f =>
    match firstDefinition? (History.definitions h) f.id with
    | some first => x.warnings = Warning.unless (.fontRedefined f.id first.name first.offset f.name f.offset)
        (first.checksum = f.checksum ∧ first.scale = f.scale ∧ first.designSize = f.designSize ∧
          first.area = f.area ∧ first.name = f.name)
    -- a font that is new is looked for, and whatever the source of fonts has to say of it is said
    | none => ∃ s, Asked source s ∧ x.warnings = (FontSource.resolve s f).2.1
  | .postPostamble pointer _ =>
    let trailing := data.data.toList.drop (x.site.offset + 6)
    ∃ offset, latest? postambleOffset? h = some offset ∧ x.warnings =
      Warning.unless (.postPointer offset pointer) (pointer.toInt = offset) ++
      Warning.unless (.irregularPadding (trailing.takeWhile (· == 223)).length trailing.length)
        (4 ≤ trailing.length ∧ trailing.all (· == 223))
  | _ => x.warnings = []

namespace Machine

variable {σ : Type} [FontSource σ] {m m' : Machine σ} {x : Executed} {h : List Executed} {source : σ}

omit [FontSource σ] in
theorem Tallies.toInt_lastPage (ht : m.Tallies h) (hh : ∀ x ∈ h, x.site.offset < 2 ^ 31) :
    m.lastPage.toInt = History.lastPage h := by
  rw [ht.lastPage, History.lastPage]
  rcases hp : latest? Executed.pageOffset? h with _ | offset
  · rfl
  · obtain ⟨x, hx, ho⟩ := exists_of_latest? hp
    have hshort := hh x hx
    rw [Executed.offset_of_pageOffset? ho] at hshort
    exact toInt_ofNat hshort

theorem paddingWarnings_eq (c : Cursor) : paddingWarnings c =
    let trailing := c.data.data.toList.drop c.pos
    Warning.unless (.irregularPadding (trailing.takeWhile (· == 223)).length trailing.length)
      (4 ≤ trailing.length ∧ trailing.all (· == 223)) := by
  have hrest : (c.data.extract c.pos c.data.size).data.toList = c.data.data.toList.drop c.pos := by simp
  unfold paddingWarnings Warning.unless
  rw [hrest]
  dsimp only [Opcode.padding]
  generalize c.data.data.toList.drop c.pos = trailing
  have hlength : (trailing.takeWhile (· == 223)).length = trailing.length ↔ trailing.all (· == 223) = true := by
    rw [List.all_eq_true, ← List.takeWhile_eq_self_iff]
    exact ⟨(List.takeWhile_prefix _).eq_of_length, congrArg List.length⟩
  rw [← ite_not]
  refine if_congr ?_ rfl rfl
  rw [← hlength, Bool.or_eq_true, decide_eq_true_eq, decide_eq_true_eq]
  omega

omit [FontSource σ] in
theorem postambleWarnings_eq (hm : m.randomAccess = false) (p : Postamble) : m.postambleWarnings p =
    Warning.unless (.lastPage m.lastPage p.lastPage) (p.lastPage = m.lastPage) ++
    Warning.unless (.pageCount p.totalPages m.pageCount) (p.totalPages.toNat = m.pageCount) ++
    Warning.unless (.stackDepth p.maxStackDepth m.deepest) (m.deepest ≤ p.maxStackDepth.toNat) ++
    Warning.unless .units (∀ q ∈ m.preamble,
      q.numerator = p.numerator ∧ q.denominator = p.denominator ∧ q.magnification = p.magnification) := by
  simp only [postambleWarnings, hm, Bool.false_eq_true, if_false]
  congr 1
  cases m.preamble with
  | none =>
    refine (if_pos fun q hq => ?_).symm
    cases hq
  | some q =>
    refine if_congr ?_ rfl rfl
    simp only [Bool.and_eq_true, decide_eq_true_eq, Option.mem_some_iff, forall_eq', and_assoc]

/-- A command raises the warnings that are called for, if the machine summarizes the commands before it and, at the end
of the stream, has read a postamble and stands behind the command. -/
theorem warns_of_execute {data : ByteArray} {site : Site} {c : Command} {e : Effect σ} (hs : m.Summarizes source h)
    (hshort : ∀ x ∈ h, x.site.offset < 2 ^ 31)
    (hend : ∀ pointer id, c = .postPostamble pointer id →
      m.postamble.isSome = true ∧ m.cursor.data = data ∧ m.cursor.pos = site.offset + 6)
    (he : m.execute site c = .ok e) : Executed.Warns data source h ⟨site, c, e.signals, e.warnings⟩ := by
  obtain ⟨htallies, hfonts, hsource, hpreamble, hpostamble, hrandom⟩ := hs
  have hlast : m.lastPage.toInt = History.lastPage h := htallies.toInt_lastPage hshort
  have hlast' : Int32.ofInt (History.lastPage h) = m.lastPage := by rw [← hlast, Int32.ofInt_toInt]
  have hunless (w : Warning) (p : Int32) : w.unless (p.toInt = History.lastPage h) = w.unless (p = m.lastPage) :=
    if_congr (by rw [← hlast, Int32.toInt_inj]) rfl rfl
  unfold Executed.Warns
  cases execute_eq_ok_iff.1 he with
  | @beginPage counts back =>
    dsimp only
    rw [← htallies.pageCount, hlast', hunless]
    simp only [beginPage, hrandom, Bool.false_or, decide_eq_true_eq]
    rfl
  | @postamble p =>
    dsimp only
    rw [← htallies.pageCount, ← htallies.deepest, hlast', ← hpreamble, hunless]
    exact postambleWarnings_eq hrandom p
  | @defineFont f =>
    dsimp only
    rw [← hfonts f.id]
    unfold defineFont
    cases m.fonts.find? f.id with
    | none => exact ⟨_, hsource, rfl⟩
    | some first =>
      refine if_congr ?_ rfl rfl
      simp only [FontDefinition.sameFont, Bool.and_eq_true, beq_iff_eq, and_assoc]
  | @postPostamble pointer id =>
    obtain ⟨hsome, hdata, hpos⟩ := hend pointer id rfl
    obtain ⟨p, hp⟩ := Option.isSome_iff_exists.1 hsome
    rw [hp] at hpostamble
    -- the postamble was read in the part of the stream that is short enough
    obtain ⟨y, hy, hoffset⟩ := exists_of_latest? hpostamble.symm
    have hplace : y.site.offset = p.offset := Executed.offset_of_postambleOffset? hoffset
    refine ⟨p.offset, hpostamble.symm, ?_⟩
    dsimp only
    rw [hp, paddingWarnings_eq, hdata, hpos]
    congr 1
    refine if_congr ?_ rfl rfl
    rw [← Int32.toInt_inj, pointerTo, toInt_ofNat (hplace ▸ hshort y hy)]
  | _ => rfl

theorem Does.warns {data : ByteArray} (hr : (start data source).Runs h m) (hsize : data.size < 2 ^ 31)
    (hx : m.Does x m') : x.Warns data source h := by
  have hdata : m.cursor.data = data := hr.data
  refine warns_of_execute (m := m.reading m'.cursor x.site) (hr.summarizes.reading _ _) (fun y hy => ?_)
    (fun pointer id hc => ⟨?_, hx.data.trans hdata, ?_⟩) hx.executed
  · have := hr.sites.2.1 y hy
    have := hdata ▸ m.cursor.pos_le
    omega
  · exact hr.isComplete_iff.2 (Phase.eq_of_next_afterPostamble hx.allowed (by rw [hc]; rfl)).1
  · obtain ⟨ho, bs, hpasses, ht⟩ := Cursor.command?_eq_some_iff.1 hx.read
    rw [hc] at ht
    obtain ⟨-, xs, rfl, hxs⟩ := Opcode.of_takes ht
    change m'.cursor.pos = _
    rw [hpasses.pos, ho, List.length_cons, List.length_append, field_i32.length_eq hxs]
    rfl

end Machine

namespace Interpreter

variable {σ δ : Type} [FontSource σ] [Device δ]

/-- **The warnings of a stream are those that its commands call for**, one command after the other, however far the
stream is read. Offsets in streams of 2³¹ bytes or more are not compared as they are. -/
theorem warnings_of_history {data : ByteArray} (hsize : data.size < 2 ^ 31) (source : σ) (device : δ) :
    (∀ h x t, (Machine.start data source).history = h ++ x :: t → x.Warns data source h) ∧
    (∀ n, ((start data source device).steps n).log =
      ((Machine.start data source).history.take n).flatMap (·.warnings)) ∧
    (start data source device).run.2.log = (Machine.start data source).history.flatMap (·.warnings) := by
  refine ⟨fun h x t hh => ?_, fun n => ?_, ?_⟩
  · obtain ⟨m, m', hr, hx⟩ := Machine.exists_runs_of_history hh
    exact hx.warns hr hsize
  · exact ((start data source device).log_steps n).trans (List.nil_append _)
  · exact (start data source device).log_run.trans (List.nil_append _)

end Interpreter

/-- Two pages that go wrong wherever they can be read nevertheless: a font defined twice, a first page that points
back, a postamble with another page, count, depth and unit, and an end that points to no postamble and has a byte
behind its padding. -/
def loosePages : ByteArray :=
  let counts := List.replicate 40 0
  let units := [1, 131, 146, 192, 28, 59, 0, 0, 0, 0, 3]
  let font := [243, 0, 0, 0, 0, 0, 0, 10, 0, 0, 0, 10, 0, 0, 0, 1]
  let bytes := [247, 2] ++ units ++ [232, 0] ++ font ++ [97] ++ font ++ [98] ++
    [139] ++ counts ++ [0, 0, 0, 7, 141, 142, 140] ++
    [139] ++ counts ++ [0, 0, 0, 49, 140] ++
    [248, 0, 0, 0, 49] ++ units ++ [233, 0, 0, 0, 0, 0, 0, 0, 0, 0, 0, 0, 3] ++
    [249, 0, 0, 0, 0, 2, 223, 223, 65]
  ⟨bytes.toArray⟩

/-- Everything is noticed, and nothing else. -/
theorem Interpreter.warnings_of_history_loosePages :
    loosePages.size < 2 ^ 31 ∧
    (∀ h x t, (Machine.start loosePages NoFonts.mk).history = h ++ x :: t → x.Warns loosePages NoFonts.mk h) ∧
    (Machine.start loosePages NoFonts.mk).history.flatMap (·.warnings) =
      [.fontRedefined 0 "a" 15 "b" 32, .backPointer 1 (-1) 7, .lastPage 97 49, .pageCount 3 2, .stackDepth 0 1, .units,
        .postPointer 143 0, .irregularPadding 2 3] := by
  have hsize : loosePages.size < 2 ^ 31 := by decide +kernel
  obtain ⟨hwarns, -, hlog⟩ := warnings_of_history hsize NoFonts.mk ({} : PageCollector)
  refine ⟨hsize, hwarns, hlog ▸ ?_⟩
  decide +kernel

end Dvi
