import Dvi.Proofs.Machine.Coherence
import Dvi.Proofs.Machine.Resolved
import Mathlib.Data.List.Infix

/-!
# What a machine keeps of its history

The counts, offsets and depths of a machine, its fonts and its records say the same as the commands that it has
executed.

* `History.lastPage`, `History.pageCount`, `History.nesting`, `History.deepest`: what can be said of commands that were
  executed one after the other;
* `Machine.tally_of_execute`: what a command adds to the counts of a machine;
* `Machine.Summarizes`: a machine that keeps all this. **`Machine.Runs.summarizes`**: so does one that has executed
  the commands.
-/

namespace Dvi

namespace Command

/-- The command pushes the registers. -/
def isPush : Command → Bool
  | .push => true
  | _ => false

/-- The command restores the registers. -/
def isPop : Command → Bool
  | .pop => true
  | _ => false

end Command

/-- The offset of the postamble that was read. -/
def Executed.postambleOffset? (x : Executed) : Option Nat :=
  match x.command with
  | .postamble _ => some x.site.offset
  | _ => none

theorem Executed.offset_of_postambleOffset? {x : Executed} {offset : Nat} (h : x.postambleOffset? = some offset) :
    x.site.offset = offset := by
  unfold postambleOffset? at h
  split at h <;> cases h
  rfl

namespace History

/-- The offset of the page begun last, and -1 if none was begun. -/
def lastPage (h : List Executed) : Int :=
  match latest? Executed.pageOffset? h with
  | some offset => offset
  | none => -1

/-- The number of pages begun. -/
def pageCount (h : List Executed) : Nat := (h.filterMap Executed.pageOffset?).length

/-- The commands since the last beginning of a page, the last first. -/
def sincePage (h : List Executed) : List Executed := h.reverse.takeWhile (·.pageOffset?.isNone)

/-- How often registers were pushed on the page, less how often they were restored. -/
def nesting (h : List Executed) : Nat :=
  (sincePage h).countP (·.command.isPush) - (sincePage h).countP (·.command.isPop)

/-- The greatest nesting that was reached at any time. -/
def deepest (h : List Executed) : Nat := (h.inits.map nesting).foldl max 0

/-- The definitions of fonts, also those of a number that had one. -/
def definitions (h : List Executed) : List FontDefinition := h.filterMap (·.command.definition?)

theorem sincePage_concat (h : List Executed) (x : Executed) :
    sincePage (h ++ [x]) = if x.pageOffset?.isNone then x :: sincePage h else [] := by
  simp [sincePage, List.takeWhile_cons]

theorem deepest_concat (h : List Executed) (x : Executed) :
    deepest (h ++ [x]) = max (deepest h) (nesting (h ++ [x])) := by
  simp [deepest, List.inits_append]

theorem nesting_le_deepest (h : List Executed) : nesting h ≤ deepest h := by
  rcases h.eq_nil_or_concat with rfl | ⟨h, x, rfl⟩
  · exact Nat.le_refl 0
  · rw [List.concat_eq_append, deepest_concat]
    exact Nat.le_max_right _ _

end History

namespace Machine

variable {σ : Type} [FontSource σ] {m m' : Machine σ} {x : Executed} {h : List Executed}

theorem tally_of_execute {site : Site} {c : Command} {e : Effect σ} (h : m.execute site c = .ok e) :
    let page := Executed.pageOffset? ⟨site, c, e.signals, e.warnings⟩
    e.machine.lastPage = (page.map pointerTo).getD m.lastPage ∧
    e.machine.pageCount = m.pageCount + page.toList.length ∧
    (if page.isNone then e.machine.graphics.depth + (if c.isPop then 1 else 0) =
      m.graphics.depth + (if c.isPush then 1 else 0) else e.machine.graphics.depth = 0) ∧
    e.machine.deepest = if c.isPush then max m.deepest e.machine.graphics.depth else m.deepest := by
  cases execute_eq_ok_iff.1 h with
  | pop hg => exact ⟨rfl, rfl, (Graphics.pop_eq_some hg).1, rfl⟩
  | @defineFont f =>
    obtain ⟨_, _, _, _, hm⟩ := m.defineFont_eq f
    rw [hm]
    exact ⟨rfl, rfl, rfl, rfl⟩
  | _ => exact ⟨rfl, rfl, rfl, rfl⟩

theorem Does.tally (hx : m.Does x m') : m'.lastPage = (x.pageOffset?.map pointerTo).getD m.lastPage ∧
    m'.pageCount = m.pageCount + x.pageOffset?.toList.length ∧
    (if x.pageOffset?.isNone then m'.graphics.depth + (if x.command.isPop then 1 else 0) =
      m.graphics.depth + (if x.command.isPush then 1 else 0) else m'.graphics.depth = 0) ∧
    m'.deepest = if x.command.isPush then max m.deepest m'.graphics.depth else m.deepest :=
  tally_of_execute hx.executed

omit [FontSource σ] in
/-- The machine keeps what can be said of the commands `h`, which it has executed. -/
structure Tallies (m : Machine σ) (h : List Executed) : Prop where
  lastPage : m.lastPage = match latest? Executed.pageOffset? h with
    | some offset => pointerTo offset
    | none => -1
  pageCount : m.pageCount = History.pageCount h
  depth : m.graphics.depth + (History.sincePage h).countP (·.command.isPop) =
    (History.sincePage h).countP (·.command.isPush)
  deepest : m.deepest = History.deepest h

theorem Tallies.does (ht : m.Tallies h) (hx : m.Does x m') : m'.Tallies (h ++ [x]) := by
  obtain ⟨hlast, hcount, hdepth, hdeepest⟩ := ht
  obtain ⟨hlast', hcount', hdepth', hdeepest'⟩ := hx.tally
  have hle : m.graphics.depth ≤ m.deepest := by
    have := History.nesting_le_deepest h
    unfold History.nesting at this
    omega
  have hbalance : m'.graphics.depth + (History.sincePage (h ++ [x])).countP (·.command.isPop) =
      (History.sincePage (h ++ [x])).countP (·.command.isPush) := by
    rw [History.sincePage_concat]
    split <;> rename_i hpage
    · simp only [List.countP_cons]
      rw [if_pos hpage] at hdepth'
      omega
    · rw [if_neg hpage] at hdepth'
      exact hdepth'
  have hnesting : History.nesting (h ++ [x]) = m'.graphics.depth := by
    unfold History.nesting
    omega
  refine ⟨?_, ?_, hbalance, ?_⟩
  · rw [hlast', hlast, latest?_concat]
    cases x.pageOffset? <;> rfl
  · rw [hcount', hcount]
    simp only [History.pageCount, List.filterMap_append, List.length_append]
    cases hx : x.pageOffset? <;> simp [hx]
  · rw [hdeepest', History.deepest_concat, ← hdeepest, hnesting]
    split
    · rfl
    · rename_i hpush
      -- only a push nests deeper
      have hdepth'' : m'.graphics.depth ≤ m.graphics.depth := by
        rw [if_neg hpush] at hdepth'
        split at hdepth' <;> omega
      omega

/-! ## Fonts and records -/

theorem Does.find?_fonts (hx : m.Does x m') (hf : ∀ id, m.fonts.find? id = firstDefinition? (History.definitions h) id)
    (id : UInt32) : m'.fonts.find? id = firstDefinition? (History.definitions (h ++ [x])) id := by
  unfold History.definitions at hf ⊢
  rw [List.filterMap_append]
  rcases hc : x.command.definition? with _ | f
  · simp [hc, (hx.fonts_eq hc).1, hf id]
  · simp only [List.filterMap_cons, List.filterMap_nil, hc]
    rw [hx.fonts_of_definition? hc, firstDefinition?_concat, ← hf id]
    split <;> rename_i hdefined
    · obtain ⟨first, hfirst⟩ := Table.contains_iff.1 hdefined
      split
      · rename_i hid
        rw [← hid, hfirst, Option.some_or]
      · rw [Option.or_none]
    · rw [Table.contains, Option.not_isSome_iff_eq_none] at hdefined
      rw [Table.find?_insert]
      by_cases hid : f.id = id
      · rw [if_pos hid.symm, if_pos hid, ← hid, hdefined, Option.none_or]
      · rw [if_neg (Ne.symm hid), if_neg hid, Option.or_none]

theorem Does.asked {source : σ} (hx : m.Does x m') (hs : Asked source m.source) : Asked source m'.source := by
  rcases hc : x.command.definition? with _ | f
  · rw [(hx.fonts_eq hc).2.2]
    exact hs
  · rw [hx.eq_defineFont hc]
    unfold defineFont
    split
    · exact hs
    · exact hs.snoc f

theorem Does.postambleOffset (hx : m.Does x m') :
    m'.postamble.map (·.offset) = x.postambleOffset?.or (m.postamble.map (·.offset)) := by
  rw [hx.records.2.1]
  cases hc : x.command with
  | postamble p =>
    obtain ⟨ho, bs, -, ht⟩ := Cursor.command?_eq_some_iff.1 hx.read
    rw [hc] at ht
    have hoffset : p.offset = x.site.offset := (Postamble.yields_offset _ (Opcode.of_takes ht).2).trans ho.symm
    simp [Command.amend, Executed.postambleOffset?, hc, hoffset]
  | postPostamble pointer id => simp [Command.amend, Executed.postambleOffset?, hc, Function.comp_def]
  | _ => simp [Command.amend, Executed.postambleOffset?, hc]

/-- What the machine, which began with `source`, keeps of the commands `h`. -/
structure Summarizes (source : σ) (m : Machine σ) (h : List Executed) : Prop where
  tallies : m.Tallies h
  fonts : ∀ id, m.fonts.find? id = firstDefinition? (History.definitions h) id
  source : Asked source m.source
  preamble : m.preamble = latest? (·.command.preamble?) h
  postamble : m.postamble.map (·.offset) = latest? Executed.postambleOffset? h
  randomAccess : m.randomAccess = false

theorem Summarizes.reading {source : σ} (hs : m.Summarizes source h) (c : Cursor) (site : Site) :
    (m.reading c site).Summarizes source h :=
  ⟨⟨hs.tallies.lastPage, hs.tallies.pageCount, hs.tallies.depth, hs.tallies.deepest⟩, hs.fonts, hs.source, hs.preamble,
    hs.postamble, hs.randomAccess⟩

/-- **A machine that has executed commands summarizes them.** -/
theorem Runs.summarizes {data : ByteArray} {source : σ} (hr : (start data source).Runs h m) :
    m.Summarizes source h := by
  induction hr with
  | nil => exact ⟨⟨rfl, rfl, rfl, rfl⟩, fun _ => rfl, .nil, rfl, rfl, rfl⟩
  | snoc _ hx ih => exact {
      tallies := ih.tallies.does hx
      fonts := hx.find?_fonts ih.fonts
      source := hx.asked ih.source
      preamble := by rw [hx.records.1, ih.preamble, latest?_concat]
      postamble := by rw [hx.postambleOffset, ih.postamble, latest?_concat]
      randomAccess := (frame_of_execute hx.executed).1.trans ih.randomAccess }

end Machine

end Dvi
