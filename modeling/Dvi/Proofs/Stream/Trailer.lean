import Dvi.PageIndex
import Dvi.Proofs.Machine.Runs

/-!
# What stands at the end of a stream

If the commands of a stream stand where its pointers lead, they are found from its end.

* `Opcode.of_takes`: the opcodes and the operands of the commands that pages and pointers are about;
* `Trailer.paddingOf_eq`: the padding is what follows the last byte that is something else;
* **`Trailer.locate_eq_of_toInt`**: the last command, the postamble and the fonts after it are found from anywhere;
* `PageIndex.Links`: pages that point back to each other; **`PageIndex.Links.chain_eq`**: they are found from the
  last of them.
-/

namespace Dvi

open Read

theorem Opcode.ofByte_eq_iff {b : UInt8} {o : Opcode} : Opcode.ofByte b = o ↔ b = o.toByte := by
  constructor
  · rintro rfl
    exact (Opcode.toByte_ofByte b).symm
  · rintro rfl
    exact Opcode.ofByte_toByte o

/-- A byte that is looked at counts as zero if there is none. -/
theorem Opcode.ofByte_getD_eq_iff {b : Option UInt8} {o : Opcode} (ho : o ≠ .ofByte 0) :
    Opcode.ofByte (b.getD 0) = o ↔ b = some o.toByte := by
  cases b with
  | none => exact ⟨fun h => absurd h.symm ho, nofun⟩
  | some b => rw [Option.getD_some, ofByte_eq_iff, Option.some_inj]

theorem Opcode.of_takes {o : Opcode} {offset : Nat} {bs : List UInt8} {command : Command}
    (h : (o.operands offset).Takes bs command) :
    match command with
    | .nop => o = .nop ∧ bs = []
    | .defineFont f => ∃ w, o = .fontDef w ∧ (FontDefinition.read w offset).Takes bs f
    | .beginPage _ back => o = .beginPage ∧ ∃ xs ys, bs = xs ++ ys ∧ xs.length = 40 ∧ i32.Takes ys back
    | .postamble p => o = .postamble ∧ (Postamble.read offset).Takes bs p
    | .postPostamble pointer id => o = .postPostamble ∧ ∃ xs, bs = xs ++ [id] ∧ i32.Takes xs pointer
    | _ => True := by
  cases o with
  | setRule | putRule =>
    obtain ⟨_, _, _, _, _, _, _, rfl⟩ := Command.takes_readRule.1 h
    trivial
  | beginPage =>
    obtain ⟨xs, counts, ys, back, rfl, hx, hy, rfl⟩ := Command.takes_readBeginPage.1 h
    exact ⟨rfl, xs, ys, rfl, (field_i32.replicate 10).length_eq hx, hy⟩
  | special w =>
    obtain ⟨_, _, _, _, _, rfl⟩ := Command.takes_readSpecial.1 h
    trivial
  | postPostamble =>
    obtain ⟨xs, pointer, id, rfl, hx, rfl⟩ := Command.takes_readPostPostamble.1 h
    exact ⟨rfl, xs, rfl, hx⟩
  | fontDef w =>
    obtain ⟨f, hf, rfl⟩ := takes_map.1 h
    exact ⟨w, rfl, hf⟩
  | postamble =>
    obtain ⟨p, hp, rfl⟩ := takes_map.1 h
    exact ⟨rfl, hp⟩
  | set w | put w | right w | down w | font w | preamble =>
    obtain ⟨_, _, rfl⟩ := takes_map.1 h
    trivial
  | move r w =>
    cases w with
    | none =>
      obtain ⟨_, rfl⟩ := takes_pure.1 h
      trivial
    | some w =>
      obtain ⟨_, _, rfl⟩ := takes_map.1 h
      trivial
  | nop =>
    obtain ⟨hbs, rfl⟩ := takes_pure.1 h
    exact ⟨rfl, hbs⟩
  | setChar c | endPage | push | pop | fontNum k | undefined i =>
    obtain ⟨_, rfl⟩ := takes_pure.1 h
    trivial

/-- Whatever the reader takes has a property. -/
def Read.Yields {α : Type} (r : Read α) (P : α → Prop) : Prop := ∀ ⦃bs : List UInt8⦄ ⦃a : α⦄, r.Takes bs a → P a

theorem Read.Yields.bind {α β : Type} {r : Read α} {f : α → Read β} [Local r] [∀ a, Local (f a)] {P : β → Prop}
    (hf : ∀ a, (f a).Yields P) : (r >>= f).Yields P := by
  intro bs b h
  obtain ⟨_, a, ys, _, _, h⟩ := takes_bind.1 h
  exact hf a h

theorem Read.Yields.pure {α : Type} {a : α} {P : α → Prop} (h : P a) : (Pure.pure a : Read α).Yields P := by
  intro bs b hb
  rwa [(takes_pure.1 hb).2]

theorem FontDefinition.yields_offset (w : Width) (offset : Nat) :
    (FontDefinition.read w offset).Yields fun f => f.offset = offset :=
  .bind fun _ => .bind fun _ => .bind fun _ => .bind fun _ => .bind fun _ => .bind fun _ => .bind fun _ =>
    .bind fun _ => .pure rfl

theorem Postamble.yields_offset (offset : Nat) : (Postamble.read offset).Yields fun p => p.offset = offset :=
  .bind fun _ => .bind fun _ => .bind fun _ => .bind fun _ => .bind fun _ => .bind fun _ => .bind fun _ =>
    .bind fun _ => .pure rfl

/-! ## Scans that succeed -/

namespace Scan

variable {α β : Type} {c c' : Cursor}

theorem bind_eq {s : Scan α} {f : α → Scan β} {a : α} (h : s c = .ok a c') : (s >>= f) c = f a c' := by
  change EStateM.bind s f c = _
  rw [EStateM.bind, h]

theorem result_eq {s : Scan α} {a : α} (h : s c = .ok a c') : s.result c = .ok a := by
  rw [result, h]

theorem seek_eq (h : c'.data = c.data) : Scan.seek c'.pos c = .ok () c' := by
  rw [seek, Cursor.seek_pos h]

theorem reading_eq {opcode : Option UInt8} {r : Read α} {bs : List UInt8} {a : α} (hr : r.Takes bs a)
    (hp : c.Passes bs c') : reading opcode r c = .ok a c' := by
  rw [reading, hr hp]

end Scan

/-! ## Pointers -/

theorem toInt_ofNat {n : Nat} (h : n < 2 ^ 31) : (Int32.ofNat n).toInt = n := Int32.toInt_ofNat_of_lt h

theorem ofNat_nonneg {n : Nat} (h : n < 2 ^ 31) : ¬ Int32.ofNat n < 0 := by
  rw [Int32.lt_iff_toInt_lt, toInt_ofNat h]
  simp

namespace Trailer

/-- The padding is what follows the last byte that is something else. -/
theorem paddingOf_eq {data : ByteArray} {front pad : List UInt8} {b : UInt8}
    (h : data.data.toList = front ++ b :: pad) (hb : b ≠ Opcode.padding) (hp : ∀ x ∈ pad, x = Opcode.padding) :
    paddingOf data = pad.length := by
  have ht : (pad.reverse ++ b :: front.reverse).takeWhile (· == Opcode.padding) = pad.reverse := by
    rw [List.takeWhile_append_of_pos fun x hx => by simpa using hp x (by simpa using hx),
      List.takeWhile_cons_of_neg (by simpa using hb), List.append_nil]
  rw [paddingOf, h, List.reverse_append, List.reverse_cons, List.append_assoc, List.singleton_append, ht,
    List.length_reverse]

section ReadFonts

variable {c c' : Cursor} {site : Site}

theorem readFonts_of_nop (h : c.command? = some (site, .nop, c')) : readFonts c = readFonts c' := by
  obtain ⟨ho, bs, hp, ht⟩ := Cursor.command?_eq_some_iff.1 h
  obtain ⟨hop, rfl⟩ := Opcode.of_takes ht
  rw [readFonts]
  split <;> rename_i hb <;> rw [takes_u8.2 rfl hp] at hb <;> cases hb
  simp only [hop]

theorem readFonts_of_defineFont {f : FontDefinition} (h : c.command? = some (site, .defineFont f, c'))
    {fs : List FontDefinition} {c'' : Cursor} (hf : readFonts c' = .ok fs c'') :
    readFonts c = .ok (f :: fs) c'' := by
  obtain ⟨ho, bs, hp, ht⟩ := Cursor.command?_eq_some_iff.1 h
  obtain ⟨w, hop, hw⟩ := Opcode.of_takes ht
  obtain ⟨c₁, h₁, h₂⟩ := hp.first
  rw [readFonts]
  split <;> rename_i hb <;> rw [takes_u8.2 rfl h₁] at hb <;> cases hb
  simp only [hop]
  split <;> rename_i hd <;> rw [hw h₂] at hd <;> cases hd
  rw [hf]

theorem readFonts_of_postPostamble {pointer : Int32} {id : UInt8}
    (h : c.command? = some (site, .postPostamble pointer id, c')) : ∃ c'', readFonts c = .ok [] c'' := by
  obtain ⟨ho, bs, hp, ht⟩ := Cursor.command?_eq_some_iff.1 h
  obtain ⟨hop, _⟩ := Opcode.of_takes ht
  obtain ⟨c₁, h₁, h₂⟩ := hp.first
  refine ⟨c₁, ?_⟩
  rw [readFonts]
  split <;> rename_i hb <;> rw [takes_u8.2 rfl h₁] at hb <;> cases hb
  simp only [hop]

end ReadFonts

/-- **The end of a stream is found from anywhere in it** if the last command stands before the padding and points
to the postamble. -/
theorem locate_eq_of_toInt {c last last' post post' c' : Cursor} {site site' : Site} {pointer : Int32} {id : UInt8}
    {p : Postamble} {fonts : List FontDefinition}
    (hlast : last.command? = some (site, .postPostamble pointer id, last')) (hlastdata : last.data = c.data)
    (hend : last.pos + lastCommandBytes + paddingOf c.data = c.data.size)
    (hpost : post.command? = some (site', .postamble p, post')) (hpostdata : post.data = c.data)
    (hpointer : pointer.toInt = post.pos) (hlt : post.pos < last.pos) (hfonts : readFonts post' = .ok fonts c') :
    locate c = .ok {
      postamble := { p with postPointer := some pointer, id := some id }
      fonts, postPostOffset := last.pos, padding := paddingOf c.data } c' := by
  obtain ⟨ho, bs, hp, ht⟩ := Cursor.command?_eq_some_iff.1 hlast
  obtain ⟨ho', bs', hp', ht'⟩ := Cursor.command?_eq_some_iff.1 hpost
  obtain ⟨hop, xs, rfl, hx⟩ := Opcode.of_takes ht
  obtain ⟨hop', hread⟩ := Opcode.of_takes ht'
  obtain ⟨c₁, h₁, h₂⟩ := hp.first
  obtain ⟨c₂, h₂, h₃⟩ := h₂.left
  obtain ⟨c₃, h₄, h₅⟩ := hp'.first
  have hpos : c.data.size - paddingOf c.data - lastCommandBytes = last.pos := by omega
  have hopcode : (c.data[last.pos]?).getD 0 = site.opcode := by
    have := Cursor.peek_of_command? hlast
    rw [Cursor.peek, Cursor.byteAt, hlastdata] at this
    rw [this]
    rfl
  have hpostpos : pointer.toInt.toNat = post.pos := by rw [hpointer, Int.toNat_natCast]
  have hnonneg : ¬ pointer < 0 := by
    rw [Int32.lt_iff_toInt_lt, hpointer, Int32.toInt_zero]
    omega
  unfold locate
  rw [Scan.bind_eq (rfl : (get : Scan Cursor) c = .ok c c)]
  dsimp only
  rw [hpos, hopcode, if_neg (by omega), if_neg (by simp [hop])]
  have hc₁ : last.pos + 1 = c₁.pos := h₁.pos.symm
  rw [hc₁, Scan.bind_eq (Scan.seek_eq (h₁.data.trans hlastdata)), Scan.bind_eq (Scan.reading_eq hx h₂),
    Scan.bind_eq (Scan.reading_eq (takes_u8.2 rfl) h₃), hpostpos,
    if_neg (by simp [hnonneg, hlt])]
  have hdata : post.data = last'.data := by rw [hpostdata, hp.data, hlastdata]
  rw [Scan.bind_eq (Scan.seek_eq hdata), Scan.bind_eq (Scan.reading_eq (takes_u8.2 rfl) h₄),
    if_neg (by simp [hop']), Scan.bind_eq (Scan.reading_eq hread h₅), Scan.bind_eq hfonts]
  rfl

/-- **So it is** in a stream in which 32 bits are enough for all pointers. -/
theorem locate_eq {c last last' post post' c' : Cursor} {site site' : Site} {pointer : Int32} {id : UInt8}
    {p : Postamble} {fonts : List FontDefinition} (hsize : c.data.size < 2 ^ 31)
    (hlast : last.command? = some (site, .postPostamble pointer id, last')) (hlastdata : last.data = c.data)
    (hend : last.pos + lastCommandBytes + paddingOf c.data = c.data.size)
    (hpost : post.command? = some (site', .postamble p, post')) (hpostdata : post.data = c.data)
    (hpointer : pointer = Int32.ofNat post.pos) (hlt : post.pos < last.pos)
    (hfonts : readFonts post' = .ok fonts c') :
    locate c = .ok {
      postamble := { p with postPointer := some pointer, id := some id }
      fonts, postPostOffset := last.pos, padding := paddingOf c.data } c' := by
  have hle : post.pos ≤ c.data.size := hpostdata ▸ post.pos_le
  exact locate_eq_of_toInt hlast hlastdata hend hpost hpostdata
    (by rw [hpointer, toInt_ofNat (Nat.lt_of_le_of_lt hle hsize)]) hlt hfonts

end Trailer

/-! ## The chain of pages -/

namespace PageIndex

/-- Pages at `offsets`, the last first, each of which points back to the one before it; the first has no page
before it. `pointer` leads to the last of them. -/
inductive Links (data : ByteArray) : List Nat → Int32 → Prop
  | nil : Links data [] (-1)
  | cons {offsets : List Nat} {pointer : Int32} {offset : Nat} (h : Links data offsets pointer)
    (hlt : ∀ o ∈ offsets, o < offset) (hsize : offset < data.size)
    (hop : Opcode.ofByte ((data[offset]?).getD 0) = .beginPage) (hback : backPointer data offset = .ok pointer) :
    Links data (offset :: offsets) (Int32.ofNat offset)

/-- **Pages that point back to each other are found.** -/
theorem Links.chain_eq {data : ByteArray} {offsets : List Nat} {pointer : Int32} (h : Links data offsets pointer)
    (hdata : data.size < 2 ^ 31) {limit : Nat} (hl : ∀ o ∈ offsets, o < limit) :
    chain data limit pointer = .ok offsets := by
  induction h generalizing limit with
  | nil =>
    rw [chain]
    rfl
  | @cons offsets pointer offset _ hlt hsize hop hback ih =>
    have hn : offset < 2 ^ 31 := by omega
    rw [chain, if_neg (ofNat_nonneg hn)]
    dsimp only
    rw [toInt_ofNat hn, Int.toNat_natCast, dif_pos (hl offset (by simp)), if_pos hop, hback]
    dsimp only
    rw [ih hlt]
    rfl

theorem build_eq {data : ByteArray} {t : Trailer} {offsets : List Nat}
    (ht : Trailer.locate.result (.start data) = .ok t)
    (hc : chain data t.postamble.offset t.postamble.lastPage = .ok offsets) :
    (build data).1 = .ok ⟨offsets.reverse.toArray, t⟩ := by
  unfold build
  simp only [ht, hc]

theorem backPointer_eq {c c' : Cursor} {site : Site} {counts : Vector Int32 10} {back : Int32}
    (h : c.command? = some (site, .beginPage counts back, c')) : backPointer c.data c.pos = .ok back := by
  obtain ⟨ho, bs, hp, ht⟩ := Cursor.command?_eq_some_iff.1 h
  obtain ⟨hop, xs, ys, rfl, hx, hy⟩ := Opcode.of_takes ht
  obtain ⟨c₁, h₁, h₂⟩ := (List.cons_append ▸ hp : c.Passes ((site.opcode :: xs) ++ ys) c').left
  have hpos : c.pos + backPointerOffset = c₁.pos := by
    rw [h₁.pos, List.length_cons, hx]
    rfl
  have hseek : Scan.seek c₁.pos (.start c.data) = .ok () c₁ := Scan.seek_eq h₁.data
  unfold backPointer
  rw [hpos]
  exact Scan.result_eq ((Scan.bind_eq hseek).trans (Scan.reading_eq hy h₂))

end PageIndex

end Dvi
