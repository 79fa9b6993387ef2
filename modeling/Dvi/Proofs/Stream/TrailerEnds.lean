import Dvi.Proofs.Machine.Drawing
import Dvi.Proofs.Stream.Scans
import Dvi.Proofs.Stream.Trailer

/-!
# The two ends of a trailer

The end of a stream is read from two sides. Its last command is found from the end, back over the padding; the
postamble and the fonts are read forward from where that command points, until any last command. Nothing makes the
second scan stop where the first one did.

* `CommandAt`: a command and the bytes it takes; `Trailer.Defines`: a stretch of font definitions and commands without
  effect. **`Trailer.readFonts_eq_ok_iff`**: the fonts are those of the stretch before the next last command;
* `Trailer.Reads`: what a trailer tells of the bytes, and where the forward scan stops;
* **`Trailer.locate_iff_reads`**: a trailer is found if and only if the bytes are as it tells. The two scans meet, or
  the forward one stops at a last command before, or it has passed the last one as an operand;
* `Trailer.locate_ends_apart`: two streams in which they do not meet.
-/

namespace Dvi

open Read

variable {data : ByteArray} {offset next next' stop : Nat} {command command' : Command} {f : FontDefinition}
  {fonts : List FontDefinition}

/-! ## Commands and the bytes they take -/

/-- A command stands at `offset`, and takes the bytes before `next`. -/
def CommandAt (data : ByteArray) (offset : Nat) (command : Command) (next : Nat) : Prop :=
  ∃ (c c' : Cursor) (site : Site), c.data = data ∧ c.pos = offset ∧ c.command? = some (site, command, c') ∧
    c'.pos = next

namespace CommandAt

theorem exists_eq {c : Cursor} (h : CommandAt c.data c.pos command next) :
    ∃ site c', c.command? = some (site, command, c') ∧ c'.data = c.data ∧ c'.pos = next := by
  obtain ⟨c₁, c', site, hdata, hpos, hcommand, rfl⟩ := h
  obtain rfl := Cursor.eq_of_pos hdata hpos
  exact ⟨site, c', hcommand, Cursor.data_of_command? hcommand, rfl⟩

theorem of_read {c c₁ c₂ : Cursor} {o : Opcode} (hbyte : u8 c = .ok o.toByte c₁)
    (h : o.operands c.pos c₁ = .ok command c₂) : CommandAt c.data c.pos command c₂.pos ∧ c₂.data = c.data := by
  have hcommand : c.command? = some (⟨c.pos, o.toByte⟩, command, c₂) := by
    simp only [Cursor.command?, hbyte, Opcode.ofByte_toByte, h]
  exact ⟨⟨c, c₂, _, rfl, rfl, hcommand, rfl⟩, Cursor.data_of_command? hcommand⟩

theorem exists_takes (h : CommandAt data offset command next) : ∃ (o : Opcode) (bs : List UInt8),
    data[offset]? = some o.toByte ∧ (o.operands offset).Takes bs command ∧ next = offset + 1 + bs.length := by
  obtain ⟨c, c', site, rfl, rfl, hcommand, rfl⟩ := h
  obtain ⟨-, bs, hpasses, htakes⟩ := Cursor.command?_eq_some_iff.1 hcommand
  refine ⟨Opcode.ofByte site.opcode, bs, ?_, htakes, ?_⟩
  · rw [Opcode.toByte_ofByte]
    exact Cursor.peek_of_command? hcommand
  · have hpos := hpasses.pos
    rw [List.length_cons] at hpos
    omega

theorem unique (h : CommandAt data offset command next) (h' : CommandAt data offset command' next') :
    command = command' ∧ next = next' := by
  obtain ⟨c, c₁, site, rfl, rfl, hcommand, rfl⟩ := h
  obtain ⟨_, c₂, hcommand', -, rfl⟩ := h'.exists_eq
  cases hcommand.symm.trans hcommand'
  exact ⟨rfl, rfl⟩

theorem lt_next (h : CommandAt data offset command next) : offset < next := by
  obtain ⟨-, bs, -, -, hnext⟩ := h.exists_takes
  omega

theorem nop (h : CommandAt data offset .nop next) :
    data[offset]? = some Opcode.nop.toByte ∧ next = offset + 1 := by
  obtain ⟨o, bs, hbyte, htakes, hnext⟩ := h.exists_takes
  obtain ⟨rfl, rfl⟩ := Opcode.of_takes htakes
  exact ⟨hbyte, hnext⟩

theorem defineFont (h : CommandAt data offset (.defineFont f) next) :
    (∃ w, data[offset]? = some (Opcode.fontDef w).toByte) ∧ f.offset = offset := by
  obtain ⟨o, bs, hbyte, htakes, -⟩ := h.exists_takes
  obtain ⟨w, rfl, hread⟩ := Opcode.of_takes htakes
  exact ⟨⟨w, hbyte⟩, FontDefinition.yields_offset w offset hread⟩

theorem postamble {p : Postamble} (h : CommandAt data offset (.postamble p) next) :
    p.offset = offset ∧ next = offset + 29 := by
  obtain ⟨o, bs, -, htakes, hnext⟩ := h.exists_takes
  obtain ⟨rfl, hread⟩ := Opcode.of_takes htakes
  rw [(Postamble.field_read offset).length_eq hread] at hnext
  exact ⟨Postamble.yields_offset offset hread, hnext⟩

theorem postPostamble {pointer : Int32} {id : UInt8} (h : CommandAt data offset (.postPostamble pointer id) next) :
    data[offset]? = some Opcode.postPostamble.toByte ∧ next = offset + Trailer.lastCommandBytes := by
  obtain ⟨o, bs, hbyte, htakes, hnext⟩ := h.exists_takes
  obtain ⟨rfl, xs, rfl, hpointer⟩ := Opcode.of_takes htakes
  rw [List.length_append, field_i32.length_eq hpointer] at hnext
  exact ⟨hbyte, hnext⟩

end CommandAt

/-! ## Scans that succeed -/

namespace Scan

variable {α : Type} {c c' : Cursor}

theorem get_eq_ok_iff {d : Cursor} : (get : Scan Cursor) c = .ok d c' ↔ c = d ∧ c = c' := by
  change EStateM.Result.ok c c = _ ↔ _
  simp

theorem unless_eq_ok_iff {p : Prop} [Decidable p] {e : Error} {k : Unit → Scan α} {a : α} :
    (if p then throw e >>= k else k ()) c = .ok a c' ↔ ¬ p ∧ k () c = .ok a c' := by
  by_cases hp : p
  · rw [if_pos hp, bind_eq_ok_iff]
    refine ⟨?_, fun h => absurd hp h.1⟩
    rintro ⟨_, c₁, h, -⟩
    cases h
  · rw [if_neg hp]
    exact (and_iff_right hp).symm

theorem seek_eq_ok_iff {pos : Nat} {u : Unit} : seek pos c = .ok u c' ↔ c'.data = c.data ∧ c'.pos = pos := by
  constructor
  · intro h
    unfold seek at h
    split at h
    · rename_i hseek
      cases h
      exact Cursor.of_seek hseek
    · cases h
  · rintro ⟨hdata, rfl⟩
    exact seek_eq hdata

theorem reading_eq_ok_iff {opcode : Option UInt8} {r : Read α} {a : α} :
    reading opcode r c = .ok a c' ↔ r c = .ok a c' := by
  unfold reading
  cases r c <;> simp

theorem result_eq_ok_iff {s : Scan α} {a : α} : s.result c = .ok a ↔ ∃ c', s c = .ok a c' := by
  unfold result
  cases s c <;> simp

end Scan

namespace Trailer

/-! ## The forward scan -/

/-- From `offset` to `stop` there is nothing but the definitions of `fonts` and commands without effect. -/
inductive Defines (data : ByteArray) : Nat → List FontDefinition → Nat → Prop
  | nil (offset : Nat) : Defines data offset [] offset
  | nop {offset next stop : Nat} {fonts : List FontDefinition} (h : CommandAt data offset .nop next)
    (rest : Defines data next fonts stop) : Defines data offset fonts stop
  | define {offset next stop : Nat} {f : FontDefinition} {fonts : List FontDefinition}
    (h : CommandAt data offset (.defineFont f) next) (rest : Defines data next fonts stop) :
    Defines data offset (f :: fonts) stop

namespace Defines

theorem le (h : Defines data offset fonts stop) : offset ≤ stop := by
  induction h with
  | nil => exact Nat.le_refl _
  | nop h _ ih => exact Nat.le_trans (Nat.le_of_lt h.lt_next) ih
  | define h _ ih => exact Nat.le_trans (Nat.le_of_lt h.lt_next) ih

theorem exists_commandAt (h : Defines data offset fonts stop) :
    ∀ f ∈ fonts, ∃ next ≤ stop, CommandAt data f.offset (.defineFont f) next := by
  induction h with
  | nil => exact nofun
  | nop _ _ ih => exact ih
  | @define offset next stop f fonts h rest ih =>
    rw [List.forall_mem_cons]
    exact ⟨⟨next, rest.le, h.defineFont.2.symm ▸ h⟩, ih⟩

/-- The opcode of a last command in the stretch is an operand of a definition. -/
theorem exists_covers (h : Defines data offset fonts stop) {k : Nat} (hle : offset ≤ k) (hlt : k < stop)
    (hbyte : data[k]? = some Opcode.postPostamble.toByte) :
    ∃ f ∈ fonts, ∃ next, CommandAt data f.offset (.defineFont f) next ∧ f.offset < k ∧ k < next := by
  induction h with
  | nil => omega
  | @nop offset next stop fonts h _ ih =>
    have hne : offset ≠ k := by
      rintro rfl
      cases h.nop.1.symm.trans hbyte
    have hnext := h.nop.2
    exact ih (by omega) hlt
  | @define offset next stop f fonts h _ ih =>
    obtain ⟨⟨w, hopcode⟩, hoffset⟩ := h.defineFont
    have hne : offset ≠ k := by
      rintro rfl
      cases w <;> cases hopcode.symm.trans hbyte
    by_cases hk : k < next
    · exact ⟨f, List.mem_cons_self, next, hoffset.symm ▸ h, by omega, hk⟩
    · obtain ⟨g, hg, hcovers⟩ := ih (by omega) hlt
      exact ⟨g, List.mem_cons_of_mem _ hg, hcovers⟩

end Defines

theorem exists_defines_of_readFonts {c c' : Cursor} (h : readFonts c = .ok fonts c') : ∃ stop,
    Defines c.data c.pos fonts stop ∧ c.data[stop]? = some Opcode.postPostamble.toByte ∧ c'.data = c.data ∧
      c'.pos = stop + 1 := by
  -- the scan as it runs: each turn that goes on has read a command, which comes in front
  fun_induction readFonts c generalizing fonts with
  | case3 c byte c₁ hbyte w hop d c₂ hread ds c₃ hrest ih =>
    cases h
    obtain rfl := Opcode.ofByte_eq_iff.1 hop
    obtain ⟨hcommand, hdata⟩ := CommandAt.of_read hbyte (bind_eq_ok_iff.2 ⟨d, c₂, hread, rfl⟩)
    obtain ⟨stop, hdefines, hrest⟩ := ih hrest
    rw [hdata] at hdefines hrest
    exact ⟨stop, .define hcommand hdefines, hrest⟩
  | case5 c byte c₁ hbyte hop ih =>
    obtain rfl := Opcode.ofByte_eq_iff.1 hop
    obtain ⟨hcommand, hdata⟩ := CommandAt.of_read hbyte rfl
    obtain ⟨stop, hdefines, hrest⟩ := ih h
    rw [hdata] at hdefines hrest
    exact ⟨stop, .nop hcommand hdefines, hrest⟩
  | case6 c byte c₁ hbyte hop =>
    cases h
    obtain rfl := Opcode.ofByte_eq_iff.1 hop
    obtain ⟨hget, hdata, hpos⟩ := Cursor.u8_eq_ok_iff.1 hbyte
    exact ⟨c.pos, .nil _, hget, hdata, hpos⟩
  | _ => cases h

theorem Defines.readFonts_eq (h : Defines data offset fonts stop)
    (hstop : data[stop]? = some Opcode.postPostamble.toByte) {c' : Cursor} (hdata : c'.data = data)
    (hpos : c'.pos = stop + 1) (hle : offset ≤ data.size) : readFonts ⟨data, offset, hle⟩ = .ok fonts c' := by
  induction h with
  | nil offset =>
    have hbyte : u8 ⟨data, offset, hle⟩ = .ok _ c' := Cursor.u8_eq_ok_iff.2 ⟨hstop, hdata, hpos⟩
    rw [readFonts]
    split <;> rename_i hb <;> cases hb.symm.trans hbyte
    rfl
  | nop h _ ih =>
    obtain ⟨site, ⟨_, pos, hle'⟩, hcommand, rfl, rfl⟩ := h.exists_eq (c := ⟨data, _, hle⟩)
    rw [readFonts_of_nop hcommand]
    exact ih hstop hpos hle'
  | define h _ ih =>
    obtain ⟨site, ⟨_, pos, hle'⟩, hcommand, rfl, rfl⟩ := h.exists_eq (c := ⟨data, _, hle⟩)
    exact readFonts_of_defineFont hcommand (ih hstop hpos hle')

/-- **The fonts are those of the stretch before the next last command.** -/
theorem readFonts_eq_ok_iff {c c' : Cursor} : readFonts c = .ok fonts c' ↔ ∃ stop,
    Defines c.data c.pos fonts stop ∧ c.data[stop]? = some Opcode.postPostamble.toByte ∧ c'.data = c.data ∧
      c'.pos = stop + 1 := by
  refine ⟨exists_defines_of_readFonts, ?_⟩
  rintro ⟨stop, hdefines, hstop, hdata, hpos⟩
  exact hdefines.readFonts_eq hstop hdata hpos c.pos_le

/-! ## The two scans -/

theorem add_paddingOf_lt {k : Nat} {b : UInt8} (hbyte : data[k]? = some b) (hb : b ≠ Opcode.padding) :
    k + paddingOf data < data.size := by
  have hget : data.data.toList[k]? = some b := (Cursor.byteAt_eq (.start data) k).symm.trans hbyte
  obtain ⟨hk, hget⟩ := List.getElem?_eq_some_iff.1 hget
  have hsize : data.data.toList.length = data.size := Array.length_toList
  refine Nat.lt_of_not_le fun hle => ?_
  -- else the byte is one of those that are passed from the end
  let passed := data.data.toList.reverse.takeWhile (· == Opcode.padding)
  have hpassed : data.size - 1 - k < passed.length := by
    have : passed.length = paddingOf data := rfl
    omega
  have hall : passed.all (· == Opcode.padding) = true := List.all_takeWhile
  have hpad := List.all_eq_true.1 hall _ (List.getElem_mem hpassed)
  have hback : data.size - 1 - (data.size - 1 - k) = k := by omega
  rw [(List.takeWhile_prefix _).getElem, List.getElem_reverse] at hpad
  simp only [hsize, hback, hget, beq_iff_eq] at hpad
  exact hb hpad

/-- `t` tells what is found in `data` from both sides, where the forward scan stops at `stop`. -/
structure Reads (t : Trailer) (data : ByteArray) (stop : Nat) : Prop where
  padding : t.padding = paddingOf data
  /-- the last command stands before the padding, and its operands fill in the postamble -/
  last : ∃ pointer, CommandAt data t.postPostOffset (.postPostamble pointer t.id) (data.size - t.padding) ∧
    t.postamble.postPointer = some pointer ∧ t.postamble.id = some t.id ∧ pointer.toInt = t.postamble.offset
  before : t.postamble.offset < t.postPostOffset
  /-- the fonts follow the postamble -/
  fonts : ∃ p first, CommandAt data t.postamble.offset (.postamble p) first ∧
    t.postamble = { p with postPointer := t.postamble.postPointer, id := t.postamble.id } ∧
    Defines data first t.fonts stop
  stop : data[stop]? = some Opcode.postPostamble.toByte

variable {t : Trailer}

theorem locate_eq_of_reads (h : t.Reads data stop) : ∃ hle, locate (.start data) = .ok t ⟨data, stop + 1, hle⟩ := by
  obtain ⟨hpadding, ⟨pointer, hlast, hpointer, hid, hto⟩, hbefore, ⟨p, first, hpost, hp, hdefines⟩, hstop⟩ := h
  have hend : t.postPostOffset + lastCommandBytes + paddingOf data = data.size := by
    have hnext := hlast.postPostamble.2
    have : lastCommandBytes = 6 := rfl
    omega
  obtain ⟨c₁, c₁', site₁, hdata₁, hpos₁, hcommand₁, -⟩ := hlast
  obtain ⟨c₂, c₂', site₂, hdata₂, hpos₂, hcommand₂, rfl⟩ := hpost
  have hdata₂' : c₂'.data = data := (Cursor.data_of_command? hcommand₂).trans hdata₂
  have hlt : stop < data.size := (getElem?_eq_some_iff.1 hstop).1
  have hfonts : readFonts c₂' = .ok t.fonts ⟨data, stop + 1, hlt⟩ := by
    rw [readFonts_eq_ok_iff, hdata₂']
    exact ⟨stop, hdefines, hstop, rfl, rfl⟩
  refine ⟨hlt, ?_⟩
  rw [locate_eq_of_toInt (c := .start data) hcommand₁ hdata₁ (hpos₁ ▸ hend) hcommand₂ hdata₂ (hpos₂ ▸ hto)
    (by rw [hpos₁, hpos₂]; exact hbefore) hfonts]
  rw [← hpointer, ← hid, ← hp, hpos₁]
  change EStateM.Result.ok (Trailer.mk t.postamble t.fonts t.postPostOffset (paddingOf data)) _ = _
  rw [← hpadding]

/-- **A trailer that is found tells what is there.** -/
theorem exists_reads_of_locate {c : Cursor} (h : locate (.start data) = .ok t c) : ∃ stop, t.Reads data stop := by
  simp only [locate, bind_eq_ok_iff, Scan.get_eq_ok_iff, Scan.unless_eq_ok_iff, Scan.seek_eq_ok_iff,
    Scan.reading_eq_ok_iff, ne_eq, Decidable.not_not, Bool.or_eq_true, decide_eq_true_eq, not_or, ge_iff_le, Nat.not_le,
    Int32.lt_iff_toInt_lt, Int32.toInt_zero] at h
  obtain ⟨_, _, ⟨rfl, rfl⟩, hsix, hlast, _, c₁, ⟨hdata₁, hpos₁⟩, pointer, c₂, hpointer, id, c₃, hid, ⟨hpos, hlt⟩, _, c₄,
    ⟨hdata₄, hpos₄⟩, opcode, c₅, hopcode, hpost, p, c₆, hread, h⟩ := h
  obtain ⟨fonts, c₇, hfonts, hok⟩ := bind_eq_ok_iff.1 h
  cases hok
  dsimp only [Cursor.start] at hlast hdata₁ hpos₁ hlt hsix ⊢
  generalize hlastpos : data.size - paddingOf data - lastCommandBytes = postPostOffset at hlast hpos₁ hlt ⊢
  -- the last command, whose opcode is looked at before its operands are read
  have hlastat : CommandAt data postPostOffset (.postPostamble pointer id) c₃.pos ∧ c₃.data = data := by
    have hbyte := (Opcode.ofByte_getD_eq_iff (by decide)).1 hlast
    have hle := Nat.le_of_lt (getElem?_eq_some_iff.1 hbyte).1
    have hu8 : u8 ⟨data, postPostOffset, hle⟩ = .ok _ c₁ := Cursor.u8_eq_ok_iff.2 ⟨hbyte, hdata₁, hpos₁⟩
    exact CommandAt.of_read hu8 (bind_eq_ok_iff.2 ⟨pointer, c₂, hpointer, bind_eq_ok_iff.2 ⟨id, c₃, hid, rfl⟩⟩)
  obtain ⟨hlastat, hdata₃⟩ := hlastat
  -- the postamble, in the same way
  obtain rfl := Opcode.ofByte_eq_iff.1 hpost
  have hpostat : CommandAt c₄.data c₄.pos (.postamble p) c₆.pos ∧ c₆.data = c₄.data :=
    CommandAt.of_read hopcode (bind_eq_ok_iff.2 ⟨p, c₆, hpos₄ ▸ hread, rfl⟩)
  obtain ⟨hpostat, hdata₆⟩ := hpostat
  obtain ⟨stop, hdefines, hstop, -⟩ := readFonts_eq_ok_iff.1 hfonts
  rw [hdata₆, hdata₄, hdata₃] at hdefines hstop
  rw [hdata₄, hdata₃] at hpostat
  have hoffset := hpostat.postamble.1
  refine ⟨stop, rfl, ⟨pointer, ?_, rfl, rfl, ?_⟩, ?_, ⟨p, c₆.pos, ?_, rfl, hdefines⟩, hstop⟩ <;> dsimp only
  · have hnext : data.size - paddingOf data = c₃.pos := by
      have := hlastat.postPostamble.2
      omega
    rw [hnext]
    exact hlastat
  · rw [hoffset, hpos₄]
    omega
  · rwa [hoffset, hpos₄]
  · rwa [hoffset]

theorem Reads.pos_after (h : t.Reads data stop) : (locate.after (.start data)).pos = stop + 1 := by
  obtain ⟨hle, hlocate⟩ := locate_eq_of_reads h
  rw [Scan.after, hlocate]

/-- The forward scan stops behind the last command if and only if it has passed its opcode as an operand. -/
theorem Reads.lt_stop_iff (h : t.Reads data stop) : t.postPostOffset < stop ↔
    t.postPostOffset < t.postamble.offset + 29 ∨ ∃ f ∈ t.fonts, ∃ next,
      CommandAt data f.offset (.defineFont f) next ∧ f.offset < t.postPostOffset ∧ t.postPostOffset < next := by
  obtain ⟨-, ⟨pointer, hlast, -⟩, hbefore, ⟨p, first, hpost, -, hdefines⟩, -⟩ := h
  have hfirst := hpost.postamble.2
  constructor
  · intro hlt
    by_cases hpassed : t.postPostOffset < first
    · exact .inl (hfirst ▸ hpassed)
    · exact .inr (hdefines.exists_covers (Nat.le_of_not_lt hpassed) hlt hlast.postPostamble.1)
  · rintro (hlt | ⟨f, hf, next, hat, -, hlt⟩)
    · exact Nat.lt_of_lt_of_le (hfirst ▸ hlt) hdefines.le
    · obtain ⟨next', hle, hat'⟩ := hdefines.exists_commandAt f hf
      obtain ⟨-, rfl⟩ := hat.unique hat'
      exact Nat.lt_of_lt_of_le hlt hle

/-- **What a trailer tells of the bytes.** It is found if and only if this is so. There is one place where the forward
scan can stop, at a last command before the padding, and all fonts lie before it. It is behind the last command that is
found from the end only if the postamble or a font runs over that one; and it may as well be before it. -/
theorem locate_iff_reads (data : ByteArray) (t : Trailer) :
    (locate.result (.start data) = .ok t ↔ ∃ stop, t.Reads data stop) ∧
    ∀ stop, t.Reads data stop →
      (locate.after (.start data)).pos = stop + 1 ∧
      stop < t.postPostOffset + lastCommandBytes ∧
      (∀ f ∈ t.fonts, ∃ next ≤ stop, CommandAt data f.offset (.defineFont f) next) ∧
      (t.postPostOffset < stop ↔ t.postPostOffset < t.postamble.offset + 29 ∨ ∃ f ∈ t.fonts, ∃ next,
        CommandAt data f.offset (.defineFont f) next ∧ f.offset < t.postPostOffset ∧ t.postPostOffset < next) := by
  refine ⟨⟨fun h => ?_, fun ⟨stop, h⟩ => ?_⟩, fun stop h => ⟨h.pos_after, ?_, ?_, h.lt_stop_iff⟩⟩
  · obtain ⟨c, hlocate⟩ := Scan.result_eq_ok_iff.1 h
    exact exists_reads_of_locate hlocate
  · obtain ⟨hle, hlocate⟩ := locate_eq_of_reads h
    exact Scan.result_eq hlocate
  · obtain ⟨pointer, hlast, -⟩ := h.last
    have hnext := hlast.postPostamble.2
    have hlt := add_paddingOf_lt h.stop (by decide)
    rw [h.padding] at hnext
    omega
  · obtain ⟨p, first, -, -, hdefines⟩ := h.fonts
    exact hdefines.exists_commandAt

end Trailer

/-- The stream of two pages, with another last command behind the padding. Its format number differs. -/
def twoPagesTwiceEnded : ByteArray := twoPages ++ ⟨#[249, 0, 0, 0, 142, 3, 223, 223, 223, 223]⟩

/-- The stream of two pages in which the name of the font runs over the last command, up to its format number. That is
the opcode of a last command. -/
def twoPagesOverrun : ByteArray := ⟨(twoPages.data.set! 186 6).set! 193 249⟩

namespace Trailer

/-- In the stream of two pages the scans meet. -/
theorem locate_iff_reads_twoPages : ∃ t : Trailer, t.Reads twoPages t.postPostOffset ∧ t.postPostOffset = 188 := by
  have hfound : (locate.result (.start twoPages)).toOption.map (·.postPostOffset) = some 188 := by decide +kernel
  have hafter : (locate.after (.start twoPages)).pos = 188 + 1 := by decide +kernel
  rcases hresult : locate.result (.start twoPages) with e | t <;> rw [hresult] at hfound
  · cases hfound
  obtain ⟨hiff, hspec⟩ := locate_iff_reads twoPages t
  obtain ⟨stop, hreads⟩ := hiff.1 hresult
  have hpos := (hspec stop hreads).1
  obtain rfl : stop = 188 := by omega
  have hlast : t.postPostOffset = 188 := Option.some.inj hfound
  exact ⟨t, hlast.symm ▸ hreads, hlast⟩

theorem exists_reads_iff {β : Type} {g : Trailer → β} {b : β}
    (hfound : (locate.result (.start data)).toOption.map g = some b)
    (hafter : (locate.after (.start data)).pos = stop + 1) :
    ∃ t, locate.result (.start data) = .ok t ∧ g t = b ∧ ∀ k, t.Reads data k ↔ k = stop := by
  rcases hresult : locate.result (.start data) with e | t <;> rw [hresult] at hfound
  · cases hfound
  obtain ⟨c, hlocate⟩ := Scan.result_eq_ok_iff.1 hresult
  obtain ⟨stop', hreads⟩ := exists_reads_of_locate hlocate
  have honly : ∀ k, t.Reads data k → k = stop := fun k hk => by
    have := hk.pos_after
    omega
  obtain rfl := honly stop' hreads
  exact ⟨t, rfl, Option.some.inj hfound, fun k => ⟨honly k, fun hk => hk ▸ hreads⟩⟩

/-- **The scans do not always meet.** With two last commands the forward scan stops at the first one, as the commands
of the stream do, and the trailer tells of the second one; and it goes on behind one that a font runs over. -/
theorem locate_ends_apart :
    (∃ t, locate.result (.start twoPagesTwiceEnded) = .ok t ∧ (t.postPostOffset = 198 ∧ t.id = 3) ∧
      t.Reads twoPagesTwiceEnded 188 ∧ ¬ t.Reads twoPagesTwiceEnded t.postPostOffset) ∧
    ((interpretPartial twoPagesTwiceEnded NoFonts.mk).failure.isNone = true ∧
      (interpretPartial twoPagesTwiceEnded NoFonts.mk).document.postamble.bind (·.id) = some 2) ∧
    ∃ t, locate.result (.start twoPagesOverrun) = .ok t ∧ t.postPostOffset = 188 ∧
      t.Reads twoPagesOverrun 193 ∧ ¬ t.Reads twoPagesOverrun t.postPostOffset := by
  refine ⟨?_, by decide +kernel, ?_⟩
  · have hfound : (locate.result (.start twoPagesTwiceEnded)).toOption.map (fun t => (t.postPostOffset, t.id)) =
        some (198, 3) := by decide +kernel
    have hafter : (locate.after (.start twoPagesTwiceEnded)).pos = 188 + 1 := by decide +kernel
    obtain ⟨t, hresult, hlast, hreads⟩ := exists_reads_iff hfound hafter
    obtain ⟨hlast, hid⟩ := Prod.mk.inj hlast
    refine ⟨t, hresult, ⟨hlast, hid⟩, (hreads 188).2 rfl, ?_⟩
    rw [hreads, hlast]
    decide
  · have hfound : (locate.result (.start twoPagesOverrun)).toOption.map (·.postPostOffset) = some 188 := by
      decide +kernel
    have hafter : (locate.after (.start twoPagesOverrun)).pos = 193 + 1 := by decide +kernel
    obtain ⟨t, hresult, hlast, hreads⟩ := exists_reads_iff hfound hafter
    refine ⟨t, hresult, hlast, (hreads 193).2 rfl, ?_⟩
    rw [hreads, hlast]
    decide

end Trailer

end Dvi
