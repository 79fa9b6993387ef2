import Dvi.Stream.Command
import Mathlib.Algebra.Group.Nat.Defs

/-!
# The bytes that readers take

What a reader makes of the bytes at its front depends on these bytes only, not on where they stand or on
what follows.

* `Cursor.rest`, `Cursor.Passes`: the bytes from a position on, and two positions with given bytes between;
* `Read.Takes`: the bytes that a reader turns into a value, wherever they stand;
* **`Read.Local`**: a reader that succeeds has taken some bytes. It is closed under sequencing, so all readers
  of operands have it (`Opcode.local_operands`);
* `Read.takes_bind` and the lemmas after it say which bytes the readers take.
-/

namespace Dvi

namespace Cursor

/-- The bytes from the position to the end. -/
def rest (c : Cursor) : List UInt8 := c.data.data.toList.drop c.pos

theorem length_rest (c : Cursor) : c.rest.length = c.remaining := by
  simp only [rest, remaining, List.length_drop, Array.length_toList]
  rfl

theorem eq_of_pos {c d : Cursor} (hd : c.data = d.data) (hp : c.pos = d.pos) : c = d := by
  obtain ⟨_, _, _⟩ := c
  obtain ⟨_, _, _⟩ := d
  subst hd hp
  rfl

/-- `c'` stands behind `bs`, which are the first bytes after `c`. -/
structure Passes (c : Cursor) (bs : List UInt8) (c' : Cursor) : Prop where
  data : c'.data = c.data
  pos : c'.pos = c.pos + bs.length
  rest : c.rest = bs ++ c'.rest

namespace Passes

theorem refl (c : Cursor) : c.Passes [] c := ⟨rfl, rfl, rfl⟩

theorem trans {c₁ c₂ c₃ : Cursor} {xs ys : List UInt8} (h : c₁.Passes xs c₂) (h' : c₂.Passes ys c₃) :
    c₁.Passes (xs ++ ys) c₃ := by
  refine ⟨h'.data.trans h.data, ?_, ?_⟩
  · rw [h'.pos, h.pos, List.length_append, Nat.add_assoc]
  · rw [h.rest, h'.rest, List.append_assoc]

theorem unique {c c₁ c₂ : Cursor} {bs : List UInt8} (h₁ : c.Passes bs c₁) (h₂ : c.Passes bs c₂) :
    c₁ = c₂ :=
  eq_of_pos (h₁.data.trans h₂.data.symm) (h₁.pos.trans h₂.pos.symm)

theorem bytes_unique {c c' : Cursor} {xs ys : List UInt8} (hx : c.Passes xs c') (hy : c.Passes ys c') :
    xs = ys :=
  List.append_cancel_right (hx.rest.symm.trans hy.rest)

theorem right {c c₁ c₂ : Cursor} {xs ys : List UInt8} (h : c.Passes (xs ++ ys) c₂)
    (hx : c.Passes xs c₁) : c₁.Passes ys c₂ := by
  refine ⟨h.data.trans hx.data.symm, ?_, ?_⟩
  · rw [h.pos, hx.pos, List.length_append, Nat.add_assoc]
  · have := h.rest
    rw [hx.rest, List.append_assoc] at this
    exact List.append_cancel_left this

end Passes

theorem exists_passes {c : Cursor} {bs tail : List UInt8} (h : c.rest = bs ++ tail) :
    ∃ c', c.Passes bs c' ∧ c'.rest = tail := by
  have hn : bs.length ≤ c.remaining := by
    rw [← length_rest, h, List.length_append]
    omega
  have ht : (c.advance bs.length hn).rest = tail := by
    rw [rest, advance, ← List.drop_drop]
    change c.rest.drop bs.length = tail
    rw [h, List.drop_left]
  refine ⟨c.advance bs.length hn, ⟨rfl, rfl, ?_⟩, ht⟩
  rw [ht, h]

theorem Passes.left {c c₂ : Cursor} {xs ys : List UInt8} (h : c.Passes (xs ++ ys) c₂) :
    ∃ c₁, c.Passes xs c₁ ∧ c₁.Passes ys c₂ := by
  obtain ⟨c₁, h₁, _⟩ := exists_passes (h.rest.trans (List.append_assoc ..))
  exact ⟨c₁, h₁, h.right h₁⟩

theorem Passes.first {c c₂ : Cursor} {b : UInt8} {bs : List UInt8} (h : c.Passes (b :: bs) c₂) :
    ∃ c₁, c.Passes [b] c₁ ∧ c₁.Passes bs c₂ := by
  rw [← List.singleton_append] at h
  exact h.left

theorem passes_start (bs : List UInt8) :
    ∃ c', (start ⟨bs.toArray⟩).Passes bs c' := by
  have hr : (start ⟨bs.toArray⟩).rest = bs ++ [] := by simp [rest, start]
  obtain ⟨c', h, _⟩ := exists_passes hr
  exact ⟨c', h⟩

end Cursor

namespace Read

variable {α β : Type}

/-- The reader turns `bs` into `a`, wherever `bs` stands. -/
def Takes (r : Read α) (bs : List UInt8) (a : α) : Prop :=
  ∀ ⦃c c' : Cursor⦄, c.Passes bs c' → r c = .ok a c'

/-- A reader that succeeds has taken some bytes, and its value comes from them. -/
class Local (r : Read α) : Prop where
  takes : ∀ {c c' : Cursor} {a : α}, r c = .ok a c' → ∃ bs, c.Passes bs c' ∧ r.Takes bs a

theorem takes_of_eq_ok {r : Read α} [Local r] {c c' : Cursor} {bs : List UInt8} {a : α}
    (h : r c = .ok a c') (hp : c.Passes bs c') : r.Takes bs a := by
  obtain ⟨xs, hx, ht⟩ := Local.takes h
  rwa [hp.bytes_unique hx]

/-- Of readers in sequence both succeed, whatever their errors are. -/
theorem bind_eq_ok_iff {ε : Type} {r : EStateM ε Cursor α} {f : α → EStateM ε Cursor β} {c c' : Cursor} {b : β} :
    (r >>= f) c = .ok b c' ↔ ∃ a c₁, r c = .ok a c₁ ∧ f a c₁ = .ok b c' := by
  simp only [Bind.bind, EStateM.bind]
  cases r c with
  | error s c₁ => simp
  | ok a c₁ =>
    refine ⟨fun h => ⟨a, c₁, rfl, h⟩, ?_⟩
    rintro ⟨_, _, h, h'⟩
    cases h
    exact h'

/-! ## Readers in sequence -/

theorem Takes.bind {r : Read α} {f : α → Read β} {xs ys : List UInt8} {a : α} {b : β}
    (hr : r.Takes xs a) (hf : (f a).Takes ys b) : (r >>= f).Takes (xs ++ ys) b := by
  intro c c' h
  obtain ⟨c₁, h₁, h₂⟩ := h.left
  exact bind_eq_ok_iff.2 ⟨a, c₁, hr h₁, hf h₂⟩

instance (a : α) : Local (pure a : Read α) where
  takes h := by
    cases h
    refine ⟨[], .refl _, fun c c' hp => ?_⟩
    rw [hp.unique (.refl c)]
    rfl

instance (r : Read α) (f : α → Read β) [Local r] [∀ a, Local (f a)] : Local (r >>= f) where
  takes h := by
    obtain ⟨a, c₁, hr, hf⟩ := bind_eq_ok_iff.1 h
    obtain ⟨xs, hx, htx⟩ := Local.takes hr
    obtain ⟨ys, hy, hty⟩ := Local.takes hf
    exact ⟨xs ++ ys, hx.trans hy, htx.bind hty⟩

instance (r : Read α) (f : α → β) [Local r] : Local (f <$> r) :=
  inferInstanceAs (Local (r >>= fun a => pure (f a)))

theorem takes_toArray (bs : List UInt8) : (take bs.length).Takes bs ⟨bs.toArray⟩ := by
  intro c c' h
  have hn : bs.length ≤ c.remaining := by
    rw [← c.length_rest, h.rest, List.length_append]
    omega
  have hb : c.data.extract c.pos (c.pos + bs.length) = ⟨bs.toArray⟩ := by
    refine ByteArray.ext (Array.toList_inj.1 ?_)
    rw [ByteArray.data_extract, Array.toList_extract, List.extract_eq_take_drop, Nat.add_sub_cancel_left]
    change c.rest.take bs.length = bs
    rw [h.rest, List.take_left]
  have hc : c.advance bs.length hn = c' := Cursor.eq_of_pos h.data.symm h.pos.symm
  rw [take, dif_pos hn, hb, hc]

instance (n : Nat) : Local (take n) where
  takes {c c' bytes} h := by
    unfold take at h
    split at h
    · rename_i hn
      cases h
      have hl : (c.rest.take n).length = n := by
        rw [List.length_take, c.length_rest]
        omega
      have hp : c.Passes (c.rest.take n) (c.advance n hn) := by
        refine ⟨rfl, by rw [hl]; rfl, ?_⟩
        rw [Cursor.advance, Cursor.rest, Cursor.rest, ← List.drop_drop, List.take_append_drop]
      have ht := takes_toArray (c.rest.take n)
      have hb : c.data.extract c.pos (c.pos + n) = ⟨(c.rest.take n).toArray⟩ := by
        have := ht hp
        rw [hl, take, dif_pos hn] at this
        exact (EStateM.Result.ok.inj this).1
      rw [hl] at ht
      exact ⟨_, hp, hb ▸ ht⟩
    · cases h

instance (n : Nat) : Local (unsigned n) := inferInstanceAs (Local (_ >>= _))
instance (n : Nat) : Local (signed n) := inferInstanceAs (Local (_ >>= _))
instance : Local u8 := inferInstanceAs (Local (_ >>= _))
instance : Local u16 := inferInstanceAs (Local (_ >>= _))
instance : Local u32 := inferInstanceAs (Local (_ >>= _))
instance : Local i32 := inferInstanceAs (Local (_ >>= _))

instance localReplicate (r : Read α) [Local r] : ∀ n, Local (replicate r n)
  | 0 => inferInstanceAs (Local (pure _))
  | n + 1 => by
    have := localReplicate r n
    exact inferInstanceAs (Local (_ >>= _))

/-! ## The bytes taken -/

/-- Where a local reader takes bytes can be told at any one place. -/
theorem takes_iff_of_passes {r : Read α} [Local r] {c c' : Cursor} {bs : List UInt8} {a : α}
    (h : c.Passes bs c') : r.Takes bs a ↔ r c = .ok a c' :=
  ⟨fun ht => ht h, fun e => takes_of_eq_ok e h⟩

theorem takes_pure {a b : α} {bs : List UInt8} : (pure a : Read α).Takes bs b ↔ bs = [] ∧ b = a := by
  obtain ⟨c', h⟩ := Cursor.passes_start bs
  rw [takes_iff_of_passes h]
  refine ⟨fun e => ?_, ?_⟩
  · cases e
    exact ⟨h.bytes_unique (.refl _), rfl⟩
  · rintro ⟨rfl, rfl⟩
    rw [h.unique (.refl _)]
    rfl

theorem takes_bind {r : Read α} {f : α → Read β} [Local r] [∀ a, Local (f a)] {bs : List UInt8} {b : β} :
    (r >>= f).Takes bs b ↔ ∃ xs a ys, bs = xs ++ ys ∧ r.Takes xs a ∧ (f a).Takes ys b := by
  refine ⟨fun h => ?_, ?_⟩
  · obtain ⟨c', hp⟩ := Cursor.passes_start bs
    obtain ⟨a, c₁, hr, hf⟩ := bind_eq_ok_iff.1 (h hp)
    obtain ⟨xs, hx, htx⟩ := Local.takes hr
    obtain ⟨ys, hy, hty⟩ := Local.takes hf
    exact ⟨xs, a, ys, hp.bytes_unique (hx.trans hy), htx, hty⟩
  · rintro ⟨xs, a, ys, rfl, hr, hf⟩
    exact hr.bind hf

theorem takes_map {r : Read α} {f : α → β} [Local r] {bs : List UInt8} {b : β} :
    (f <$> r).Takes bs b ↔ ∃ a, r.Takes bs a ∧ b = f a := by
  change (r >>= fun a => pure (f a)).Takes bs b ↔ _
  rw [takes_bind]
  refine ⟨?_, ?_⟩
  · rintro ⟨xs, a, ys, rfl, hr, hf⟩
    obtain ⟨rfl, rfl⟩ := takes_pure.1 hf
    exact ⟨a, by rwa [List.append_nil], rfl⟩
  · rintro ⟨a, hr, rfl⟩
    exact ⟨bs, a, [], (List.append_nil _).symm, hr, takes_pure.2 ⟨rfl, rfl⟩⟩

theorem takes_take {n : Nat} {bs : List UInt8} {x : ByteArray} :
    (take n).Takes bs x ↔ bs.length = n ∧ x = ⟨bs.toArray⟩ := by
  refine ⟨fun h => ?_, ?_⟩
  · obtain ⟨c', hp⟩ := Cursor.passes_start bs
    have hn : bs.length = n := by
      have h₁ := remaining_of_take (h hp)
      have h₂ := congrArg List.length hp.rest
      rw [List.length_append, Cursor.length_rest, Cursor.length_rest] at h₂
      omega
    subst hn
    have := (h hp).symm.trans (takes_toArray bs hp)
    exact ⟨rfl, (EStateM.Result.ok.inj this).1⟩
  · rintro ⟨rfl, rfl⟩
    exact takes_toArray bs

theorem takes_unsigned {n : Nat} {bs : List UInt8} {v : Nat} :
    (unsigned n).Takes bs v ↔ bs.length = n ∧ v = bigEndian bs := by
  change ((fun x : ByteArray => bigEndian x.data.toList) <$> take n).Takes bs v ↔ _
  simp only [takes_map, takes_take]
  exact ⟨fun ⟨_, ⟨hn, hx⟩, hv⟩ => ⟨hn, by rw [hv, hx]⟩, fun ⟨hn, hv⟩ => ⟨_, ⟨hn, rfl⟩, hv⟩⟩

theorem takes_signed {n : Nat} {bs : List UInt8} {v : Int} :
    (signed n).Takes bs v ↔ bs.length = n ∧ v = Int.bmod (bigEndian bs) (Nat.pow 256 n) := by
  change ((fun x : Nat => Int.bmod x (Nat.pow 256 n)) <$> unsigned n).Takes bs v ↔ _
  simp only [takes_map, takes_unsigned]
  exact ⟨fun ⟨_, ⟨hn, hx⟩, hv⟩ => ⟨hn, by rw [hv, hx]⟩, fun ⟨hn, hv⟩ => ⟨_, ⟨hn, rfl⟩, hv⟩⟩

theorem takes_u8 {bs : List UInt8} {b : UInt8} : u8.Takes bs b ↔ bs = [b] := by
  change (UInt8.ofNat <$> unsigned 1).Takes bs b ↔ _
  simp only [takes_map, takes_unsigned]
  refine ⟨?_, ?_⟩
  · rintro ⟨_, ⟨hn, rfl⟩, rfl⟩
    obtain ⟨x, rfl⟩ := List.length_eq_one_iff.1 hn
    simp [bigEndian]
  · rintro rfl
    exact ⟨_, ⟨rfl, rfl⟩, by simp [bigEndian]⟩

theorem takes_u32 {bs : List UInt8} {v : UInt32} :
    u32.Takes bs v ↔ bs.length = 4 ∧ v = UInt32.ofNat (bigEndian bs) := by
  change (UInt32.ofNat <$> unsigned 4).Takes bs v ↔ _
  simp [takes_map, takes_unsigned, and_assoc]

theorem takes_i32 {bs : List UInt8} {v : Int32} :
    i32.Takes bs v ↔ bs.length = 4 ∧ v = Int32.ofInt (Int.bmod (bigEndian bs) (Nat.pow 256 4)) := by
  change (Int32.ofInt <$> signed 4).Takes bs v ↔ _
  simp [takes_map, takes_signed, and_assoc]

/-! ## Fields -/

/-- The reader takes the byte strings of length `n` and no others. -/
def Field (r : Read α) (n : Nat) : Prop := ∀ bs : List UInt8, (∃ a, r.Takes bs a) ↔ bs.length = n

theorem Field.length_eq {r : Read α} {n : Nat} (h : r.Field n) {bs : List UInt8} {a : α}
    (ht : r.Takes bs a) : bs.length = n := (h bs).1 ⟨a, ht⟩

theorem field_pure (a : α) : (pure a : Read α).Field 0 := by
  intro bs
  simp [takes_pure]

theorem Field.bind {r : Read α} {f : α → Read β} [Local r] [∀ a, Local (f a)] {n k : Nat}
    (hr : r.Field n) (hf : ∀ a, (f a).Field k) : (r >>= f).Field (n + k) := by
  intro bs
  refine ⟨?_, fun hl => ?_⟩
  · rintro ⟨b, hb⟩
    obtain ⟨xs, a, ys, rfl, hx, hy⟩ := takes_bind.1 hb
    rw [List.length_append, hr.length_eq hx, (hf a).length_eq hy]
  · obtain ⟨a, ha⟩ := (hr (bs.take n)).2 (by rw [List.length_take]; omega)
    obtain ⟨b, hb⟩ := (hf a (bs.drop n)).2 (by rw [List.length_drop]; omega)
    exact ⟨b, takes_bind.2 ⟨_, a, _, (List.take_append_drop n bs).symm, ha, hb⟩⟩

theorem Field.map {r : Read α} [Local r] {n : Nat} (hr : r.Field n) (f : α → β) : (f <$> r).Field n := by
  intro bs
  rw [← hr bs]
  refine ⟨?_, fun ⟨a, ha⟩ => ⟨f a, takes_map.2 ⟨a, ha, rfl⟩⟩⟩
  rintro ⟨b, hb⟩
  obtain ⟨a, ha, _⟩ := takes_map.1 hb
  exact ⟨a, ha⟩

theorem field_take (n : Nat) : (take n).Field n := by
  intro bs
  simp [takes_take]

theorem field_unsigned (n : Nat) : (unsigned n).Field n := (field_take n).map _

theorem field_signed (n : Nat) : (signed n).Field n := (field_unsigned n).map _

theorem field_u8 : u8.Field 1 := (field_unsigned 1).map _

theorem field_u16 : u16.Field 2 := (field_unsigned 2).map _

theorem field_u32 : u32.Field 4 := (field_unsigned 4).map _

theorem field_i32 : i32.Field 4 := (field_signed 4).map _

theorem Field.replicate {r : Read α} [Local r] {n : Nat} (hr : r.Field n) :
    ∀ k, (Read.replicate r k).Field (k * n)
  | 0 => by
    rw [Nat.zero_mul]
    exact field_pure _
  | k + 1 => by
    rw [Nat.succ_mul]
    exact (Field.replicate hr k).bind fun _ => hr.map _

end Read

/-! ## Operands -/

open Read

namespace Width

instance (w : Width) : Local w.unsigned := inferInstanceAs (Local (_ >>= _))
instance (w : Width) : Local w.signed := inferInstanceAs (Local (_ >>= _))

theorem takes_unsigned {w : Width} {bs : List UInt8} {v : UInt32} :
    w.unsigned.Takes bs v ↔ bs.length = w.bytes ∧ v = UInt32.ofNat (bigEndian bs) := by
  change (UInt32.ofNat <$> Read.unsigned w.bytes).Takes bs v ↔ _
  simp [takes_map, Read.takes_unsigned, and_assoc]

theorem field_unsigned (w : Width) : w.unsigned.Field w.bytes := (Read.field_unsigned _).map _

theorem field_signed (w : Width) : w.signed.Field w.bytes := (Read.field_signed _).map _

end Width

instance (w : Width) (offset : Nat) : Local (FontDefinition.read w offset) :=
  inferInstanceAs (Local (_ >>= _))
instance : Local Preamble.read := inferInstanceAs (Local (_ >>= _))
instance (offset : Nat) : Local (Postamble.read offset) := inferInstanceAs (Local (_ >>= _))
instance (p : Placement) : Local (Command.readRule p) := inferInstanceAs (Local (_ >>= _))
instance : Local Command.readBeginPage := inferInstanceAs (Local (_ >>= _))
instance (w : Width) : Local (Command.readSpecial w) := inferInstanceAs (Local (_ >>= _))
instance : Local Command.readPostPostamble := inferInstanceAs (Local (_ >>= _))

instance Opcode.local_operands (offset : Nat) : ∀ o : Opcode, Local (o.operands offset)
  | .set w | .put w | .font w => inferInstanceAs (Local (_ <$> w.unsigned))
  | .right w | .down w | .move _ (some w) => inferInstanceAs (Local (_ <$> w.signed))
  | .setRule | .putRule => inferInstanceAs (Local (Command.readRule _))
  | .beginPage => inferInstanceAs (Local Command.readBeginPage)
  | .special w => inferInstanceAs (Local (Command.readSpecial w))
  | .fontDef w => inferInstanceAs (Local (_ <$> FontDefinition.read w offset))
  | .preamble => inferInstanceAs (Local (_ <$> Preamble.read))
  | .postamble => inferInstanceAs (Local (_ <$> Postamble.read offset))
  | .postPostamble => inferInstanceAs (Local Command.readPostPostamble)
  | .setChar _ | .nop | .endPage | .push | .pop | .move _ none | .fontNum _ | .undefined _ =>
    inferInstanceAs (Local (pure _))

theorem Postamble.field_read (offset : Nat) : (Postamble.read offset).Field 28 :=
  field_i32.bind fun _ => field_u32.bind fun _ => field_u32.bind fun _ => field_u32.bind fun _ =>
    field_i32.bind fun _ => field_i32.bind fun _ => field_u16.bind fun _ => field_u16.map _

/-- The number that four bytes write in two's complement. -/
def signed32 (bs : List UInt8) : Int32 := Int32.ofInt (Int.bmod (bigEndian bs) (Nat.pow 256 4))

theorem FontDefinition.takes_read {w : Width} {offset : Nat} {bs : List UInt8} {f : FontDefinition} :
    (FontDefinition.read w offset).Takes bs f ↔ ∃ id checksum scale size a l area name,
      bs = id ++ checksum ++ scale ++ size ++ [a, l] ++ area ++ name ∧ id.length = w.bytes ∧
      checksum.length = 4 ∧ scale.length = 4 ∧ size.length = 4 ∧ area.length = a.toNat ∧
      name.length = l.toNat ∧
      f = {
        id := UInt32.ofNat (bigEndian id)
        checksum := UInt32.ofNat (bigEndian checksum)
        scale := signed32 scale
        designSize := signed32 size
        area := Utf8.lossy ⟨area.toArray⟩
        name := Utf8.lossy ⟨name.toArray⟩
        offset } := by
  unfold FontDefinition.read
  simp only [takes_bind, takes_pure, Width.takes_unsigned, takes_u32, takes_i32, takes_u8, takes_take]
  refine ⟨?_, ?_⟩
  · rintro ⟨id, _, _, rfl, ⟨hi, rfl⟩, checksum, _, _, rfl, ⟨hc, rfl⟩, scale, _, _, rfl, ⟨hs, rfl⟩,
      size, _, _, rfl, ⟨hd, rfl⟩, _, a, _, rfl, rfl, _, l, _, rfl, rfl,
      area, _, _, rfl, ⟨ha, rfl⟩, name, _, _, rfl, ⟨hl, rfl⟩, rfl, rfl⟩
    refine ⟨id, checksum, scale, size, a, l, area, name, ?_, hi, hc, hs, hd, ha, hl, rfl⟩
    simp
  · rintro ⟨id, checksum, scale, size, a, l, area, name, rfl, hi, hc, hs, hd, ha, hl, rfl⟩
    refine ⟨id, _, _, ?_, ⟨hi, rfl⟩, checksum, _, _, rfl, ⟨hc, rfl⟩, scale, _, _, rfl, ⟨hs, rfl⟩,
      size, _, _, rfl, ⟨hd, rfl⟩, [a], a, _, rfl, rfl, [l], l, _, rfl, rfl,
      area, _, _, rfl, ⟨ha, rfl⟩, name, _, [], (List.append_nil _).symm, ⟨hl, rfl⟩, rfl, rfl⟩
    simp

theorem FontDefinition.id_of_takes {w : Width} {offset : Nat} {bs : List UInt8} {f : FontDefinition}
    (h : (FontDefinition.read w offset).Takes bs f) : UInt32.ofNat (bigEndian (bs.take w.bytes)) = f.id := by
  obtain ⟨id, _, _, _, _, _, _, _, rfl, hi, -, -, -, -, -, rfl⟩ := takes_read.1 h
  simp only [List.append_assoc, ← hi, List.take_left]

theorem Preamble.takes_read {bs : List UInt8} {p : Preamble} :
    Preamble.read.Takes bs p ↔ ∃ id numerator denominator magnification k comment,
      bs = [id] ++ numerator ++ denominator ++ magnification ++ [k] ++ comment ∧ numerator.length = 4 ∧
      denominator.length = 4 ∧ magnification.length = 4 ∧ comment.length = k.toNat ∧
      p = {
        id
        numerator := UInt32.ofNat (bigEndian numerator)
        denominator := UInt32.ofNat (bigEndian denominator)
        magnification := UInt32.ofNat (bigEndian magnification)
        comment := ⟨comment.toArray⟩ } := by
  unfold Preamble.read
  simp only [takes_bind, takes_pure, takes_u32, takes_u8, takes_take]
  refine ⟨?_, ?_⟩
  · rintro ⟨_, id, _, rfl, rfl, n, _, _, rfl, ⟨hn, rfl⟩, d, _, _, rfl, ⟨hd, rfl⟩, m, _, _, rfl, ⟨hm, rfl⟩,
      _, k, _, rfl, rfl, comment, _, _, rfl, ⟨hc, rfl⟩, rfl, rfl⟩
    exact ⟨id, n, d, m, k, comment, by simp, hn, hd, hm, hc, rfl⟩
  · rintro ⟨id, n, d, m, k, comment, rfl, hn, hd, hm, hc, rfl⟩
    refine ⟨[id], id, _, ?_, rfl, n, _, _, rfl, ⟨hn, rfl⟩, d, _, _, rfl, ⟨hd, rfl⟩, m, _, _, rfl, ⟨hm, rfl⟩,
      [k], k, _, rfl, rfl, comment, _, [], (List.append_nil _).symm, ⟨hc, rfl⟩, rfl, rfl⟩
    simp

namespace Command

theorem takes_readRule {p : Placement} {bs : List UInt8} {command : Command} :
    (readRule p).Takes bs command ↔
      ∃ xs height ys width, bs = xs ++ ys ∧ i32.Takes xs height ∧ i32.Takes ys width ∧
        command = .rule p height width := by
  unfold readRule
  simp only [takes_bind, takes_pure]
  refine ⟨?_, ?_⟩
  · rintro ⟨xs, height, _, rfl, hx, ys, width, _, rfl, hy, rfl, rfl⟩
    exact ⟨xs, height, ys, width, by rw [List.append_nil], hx, hy, rfl⟩
  · rintro ⟨xs, height, ys, width, rfl, hx, hy, rfl⟩
    exact ⟨xs, height, ys, rfl, hx, ys, width, [], (List.append_nil ys).symm, hy, rfl, rfl⟩

theorem takes_readBeginPage {bs : List UInt8} {command : Command} :
    readBeginPage.Takes bs command ↔
      ∃ xs counts ys back, bs = xs ++ ys ∧ (i32.replicate 10).Takes xs counts ∧ i32.Takes ys back ∧
        command = .beginPage counts back := by
  unfold readBeginPage
  simp only [takes_bind, takes_pure]
  refine ⟨?_, ?_⟩
  · rintro ⟨xs, counts, _, rfl, hx, ys, back, _, rfl, hy, rfl, rfl⟩
    exact ⟨xs, counts, ys, back, by rw [List.append_nil], hx, hy, rfl⟩
  · rintro ⟨xs, counts, ys, back, rfl, hx, hy, rfl⟩
    exact ⟨xs, counts, ys, rfl, hx, ys, back, [], (List.append_nil ys).symm, hy, rfl, rfl⟩

theorem takes_readSpecial {w : Width} {bs : List UInt8} {command : Command} :
    (readSpecial w).Takes bs command ↔
      ∃ length payload, bs = length ++ payload ∧ length.length = w.bytes ∧
        payload.length = (UInt32.ofNat (bigEndian length)).toNat ∧ command = .special ⟨payload.toArray⟩ := by
  unfold readSpecial
  simp only [takes_bind, takes_pure, Width.takes_unsigned, takes_take]
  refine ⟨?_, ?_⟩
  · rintro ⟨length, _, _, rfl, ⟨hl, rfl⟩, payload, _, _, rfl, ⟨hp, rfl⟩, rfl, rfl⟩
    exact ⟨length, payload, by rw [List.append_nil], hl, hp, rfl⟩
  · rintro ⟨length, payload, rfl, hl, hp, rfl⟩
    exact ⟨length, _, payload, rfl, ⟨hl, rfl⟩, payload, _, [], (List.append_nil _).symm, ⟨hp, rfl⟩, rfl, rfl⟩

theorem takes_readPostPostamble {bs : List UInt8} {command : Command} :
    readPostPostamble.Takes bs command ↔
      ∃ xs pointer id, bs = xs ++ [id] ∧ i32.Takes xs pointer ∧ command = .postPostamble pointer id := by
  unfold readPostPostamble
  simp only [takes_bind, takes_pure, takes_u8]
  refine ⟨?_, ?_⟩
  · rintro ⟨xs, pointer, _, rfl, hx, _, id, _, rfl, rfl, rfl, rfl⟩
    exact ⟨xs, pointer, id, rfl, hx, rfl⟩
  · rintro ⟨xs, pointer, id, rfl, hx, rfl⟩
    exact ⟨xs, pointer, [id], rfl, hx, [id], id, [], rfl, rfl, rfl, rfl⟩

end Command

end Dvi
