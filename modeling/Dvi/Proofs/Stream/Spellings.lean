import Dvi.Page.Graphics
import Dvi.Proofs.Stream.Tokens

/-!
# Spellings of commands

Most commands that have an operand can be written in several ways: with an operand of one to four bytes, or, for some
values, with an opcode that holds the value. What they say is the same.

* `digits`: a number in base 256, in two's complement if it is negative. **`Width.takes_unsigned_digits`**,
  **`Width.takes_signed_digits`**: an operand is read back where it fits;
* `Opcode.Family`: the commands that have such an operand; `Opcode.Family.Spells`: the ways to write one;
* **`Opcode.Family.Spells.exists_operands_eq`**: behind the operand all spellings of a command go on alike;
* `Read.Relative`: a reader that sees only the bytes ahead of it, not where they stand.
-/

namespace Dvi

open Read

/-! ## Digits -/

/-- The last `n` digits of a number in base 256, the most significant first. -/
def digits : Nat → Int → List UInt8
  | 0, _ => []
  | n + 1, v => digits n (v / 256) ++ [UInt8.ofNat (v % 256).toNat]

theorem length_digits (n : Nat) (v : Int) : (digits n v).length = n := by
  induction n generalizing v with
  | zero => rfl
  | succ n ih => rw [digits, List.length_append, ih, List.length_singleton]

theorem bigEndian_concat (bs : List UInt8) (b : UInt8) : bigEndian (bs ++ [b]) = 256 * bigEndian bs + b.toNat := by
  rw [bigEndian, List.foldl_append]
  rfl

/-- The digits make up the number, but for a multiple of what the digit in front of them counts. -/
theorem dvd_sub_bigEndian_digits (n : Nat) (v : Int) : ((Nat.pow 256 n : Nat) : Int) ∣ v - bigEndian (digits n v) := by
  induction n generalizing v with
  | zero => exact ⟨v - bigEndian (digits 0 v), by simp⟩
  | succ n ih =>
    have hdigit : ((UInt8.ofNat (v % 256).toNat).toNat : Int) = v % 256 := by
      rw [UInt8.toNat_ofNat_of_lt' (by change _ < 256; omega)]
      omega
    have hsplit : v - bigEndian (digits (n + 1) v) = 256 * (v / 256 - bigEndian (digits n (v / 256))) := by
      rw [digits, bigEndian_concat, Int.natCast_add, Int.natCast_mul, hdigit]
      omega
    rw [hsplit, Nat.pow_eq, Nat.pow_succ', Int.natCast_mul]
    exact Int.mul_dvd_mul_left _ (ih (v / 256))

namespace Width

/-- A number can be written in so many bytes, with or without sign. -/
def Fits (w : Width) (signed : Bool) (v : Int) : Prop :=
  if signed then -((Nat.pow 256 w.bytes : Nat) : Int) ≤ v * 2 ∧ v * 2 < (Nat.pow 256 w.bytes : Nat)
  else 0 ≤ v ∧ v < (Nat.pow 256 w.bytes : Nat)

instance (w : Width) (signed : Bool) (v : Int) : Decidable (w.Fits signed v) :=
  inferInstanceAs (Decidable (if signed then _ else _))

theorem bigEndian_digits {w : Width} {v : Int} (h : w.Fits false v) : (bigEndian (digits w.bytes v) : Int) = v := by
  obtain ⟨hnonneg, hlt⟩ : 0 ≤ v ∧ v < (Nat.pow 256 w.bytes : Nat) := h
  have hvalue := bigEndian_lt (digits w.bytes v)
  rw [length_digits] at hvalue
  have hmod := Int.emod_eq_emod_iff_emod_sub_eq_zero.2 (Int.emod_eq_zero_of_dvd (dvd_sub_bigEndian_digits w.bytes v))
  rw [Int.emod_eq_of_lt hnonneg hlt, Int.emod_eq_of_lt (Int.natCast_nonneg _) (Int.ofNat_lt.2 hvalue)] at hmod
  exact hmod.symm

theorem bmod_bigEndian_digits {w : Width} {v : Int} (h : w.Fits true v) :
    Int.bmod (bigEndian (digits w.bytes v)) (Nat.pow 256 w.bytes) = v := by
  obtain ⟨hge, hlt⟩ : -((Nat.pow 256 w.bytes : Nat) : Int) ≤ v * 2 ∧ v * 2 < (Nat.pow 256 w.bytes : Nat) := h
  have hmod := Int.bmod_eq_bmod_iff_bmod_sub_eq_zero.2
    (Int.dvd_iff_bmod_eq_zero.1 (dvd_sub_bigEndian_digits w.bytes v))
  rw [Int.bmod_eq_of_le_mul_two hge hlt] at hmod
  exact hmod.symm

/-- **An operand without sign is read back** if it fits. -/
theorem takes_unsigned_digits {w : Width} {v : Int} (h : w.Fits false v) :
    w.unsigned.Takes (digits w.bytes v) (UInt32.ofNat v.toNat) := by
  have hvalue := bigEndian_digits h
  refine takes_unsigned.2 ⟨length_digits _ _, congrArg UInt32.ofNat ?_⟩
  omega

theorem takes_signed {w : Width} {bs : List UInt8} {v : Int32} : w.signed.Takes bs v ↔
    bs.length = w.bytes ∧ v = Int32.ofInt (Int.bmod (bigEndian bs) (Nat.pow 256 w.bytes)) := by
  change (Int32.ofInt <$> Read.signed w.bytes).Takes bs v ↔ _
  simp [takes_map, Read.takes_signed, and_assoc]

/-- **An operand with sign is read back** if it fits: narrow ones are extended by their sign. -/
theorem takes_signed_digits {w : Width} {v : Int} (h : w.Fits true v) :
    w.signed.Takes (digits w.bytes v) (Int32.ofInt v) :=
  takes_signed.2 ⟨length_digits _ _, congrArg Int32.ofInt (bmod_bigEndian_digits h).symm⟩

end Width

/-! ## Readers that see only what is ahead -/

namespace Read

variable {α β : Type}

theorem bind_of_ok {r : Read α} {f : α → Read β} {c c' : Cursor} {a : α} (h : r c = .ok a c') :
    (r >>= f) c = f a c' := by
  simp only [Bind.bind, EStateM.bind, h]

theorem map_congr {r r' : Read α} {c c' : Cursor} (h : r c = r' c') (f : α → β) : (f <$> r) c = (f <$> r') c' := by
  simp only [Functor.map, EStateM.map, h]

/-- What comes of two readers with the same bytes ahead: the same value, or shortfalls of as many bytes, and the same
bytes left. -/
inductive Matches : EStateM.Result Shortfall Cursor α → EStateM.Result Shortfall Cursor α → Prop
  | ok {a : α} {c d : Cursor} (h : d.rest = c.rest) : Matches (.ok a c) (.ok a d)
  | error {s t : Shortfall} {c d : Cursor} (hw : t.wanted = s.wanted) (hr : t.remaining = s.remaining)
    (h : d.rest = c.rest) : Matches (.error s c) (.error t d)

/-- A reader that does the same wherever the bytes ahead of it stand. -/
class Relative (r : Read α) : Prop where
  read : ∀ {c d : Cursor}, d.rest = c.rest → Matches (r c) (r d)

instance (a : α) : Relative (pure a : Read α) := ⟨fun h => .ok h⟩

instance (n : Nat) : Relative (take n) where
  read {c d} h := by
    have hr : d.remaining = c.remaining := by rw [← d.length_rest, ← c.length_rest, h]
    by_cases hn : n ≤ c.remaining
    · have hx : c.rest = c.rest.take n ++ c.rest.drop n := (List.take_append_drop n _).symm
      have hl : (c.rest.take n).length = n := by
        rw [List.length_take, c.length_rest]
        omega
      obtain ⟨c', hc, hc'⟩ := Cursor.exists_passes hx
      obtain ⟨d', hd, hd'⟩ := Cursor.exists_passes (h.trans hx)
      rw [takes_take.2 ⟨hl, rfl⟩ hc, takes_take.2 ⟨hl, rfl⟩ hd]
      exact .ok (hd'.trans hc'.symm)
    · rw [take, take, dif_neg hn, dif_neg (hr ▸ hn)]
      exact .error rfl hr h

instance (r : Read α) (f : α → Read β) [hr : Relative r] [hf : ∀ a, Relative (f a)] : Relative (r >>= f) where
  read {c d} h := by
    have hm := hr.read h
    simp only [Bind.bind, EStateM.bind]
    generalize r c = x at hm ⊢
    generalize r d = y at hm ⊢
    cases hm with
    | @ok a c' d' h' => exact (hf a).read h'
    | error hw hr h' => exact .error hw hr h'

instance (r : Read α) (f : α → β) [Relative r] : Relative (f <$> r) :=
  inferInstanceAs (Relative (r >>= fun a => pure (f a)))

instance (n : Nat) : Relative (unsigned n) := inferInstanceAs (Relative (_ >>= _))
instance (n : Nat) : Relative (signed n) := inferInstanceAs (Relative (_ >>= _))
instance : Relative u8 := inferInstanceAs (Relative (_ >>= _))
instance : Relative u32 := inferInstanceAs (Relative (_ >>= _))
instance : Relative i32 := inferInstanceAs (Relative (_ >>= _))

end Read

/-! ## Families -/

/-- The fields of a font definition behind the number of the font. -/
def FontDefinition.readFields (offset : Nat) (id : UInt32) : Read FontDefinition := do
  let checksum ← u32
  let scale ← i32
  let designSize ← i32
  let areaBytes ← u8
  let nameBytes ← u8
  let area ← take areaBytes.toNat
  let name ← take nameBytes.toNat
  return { id, checksum, scale, designSize, area := Utf8.lossy area, name := Utf8.lossy name, offset }

instance (offset : Nat) (id : UInt32) : Relative (FontDefinition.readFields offset id) :=
  inferInstanceAs (Relative (_ >>= _))

/-- The bytes of a special of known length. -/
def Command.readPayload (length : UInt32) : Read Command := do
  let payload ← take length.toNat
  return .special payload

instance (length : UInt32) : Relative (Command.readPayload length) := inferInstanceAs (Relative (_ >>= _))

/-- The register of a move without operand is filled in. -/
def Command.fill (r : Registers) : Command → Command
  | .move reg none => .move reg (some (r.get reg))
  | c => c

namespace Opcode

/-- The commands that come with an operand of one to four bytes. -/
inductive Family where
  | set
  | put
  | font
  /-- the operand is the length -/
  | special
  /-- the operand is the number of the font -/
  | fontDef
  | right
  | down
  | move (r : Register)
  deriving DecidableEq, Repr

namespace Family

/-- The opcode of a member of the family. -/
def opcode : Family → Width → Opcode
  | .set => .set
  | .put => .put
  | .font => .font
  | .special => .special
  | .fontDef => .fontDef
  | .right => .right
  | .down => .down
  | .move r => fun w => .move r (some w)

/-- Distances have a sign; codes, numbers of fonts and lengths have none. -/
def signed : Family → Bool
  | .right | .down | .move _ => true
  | _ => false

/-- Reads what follows the operand `v` of a command at `offset`. -/
def behind (offset : Nat) (v : Int) : Family → Read Command
  | .set => pure (.typeset .set (UInt32.ofNat v.toNat))
  | .put => pure (.typeset .put (UInt32.ofNat v.toNat))
  | .font => pure (.selectFont (UInt32.ofNat v.toNat))
  | .special => Command.readPayload (UInt32.ofNat v.toNat)
  | .fontDef => Command.defineFont <$> FontDefinition.readFields offset (UInt32.ofNat v.toNat)
  | .right => pure (.right (Int32.ofInt v))
  | .down => pure (.down (Int32.ofInt v))
  | .move r => pure (.move r (some (Int32.ofInt v)))

instance relative_behind (offset : Nat) (v : Int) : ∀ f : Family, Relative (f.behind offset v)
  | .special => inferInstanceAs (Relative (Command.readPayload _))
  | .fontDef => inferInstanceAs (Relative (_ <$> FontDefinition.readFields _ _))
  | .set | .put | .font | .right | .down | .move _ => inferInstanceAs (Relative (pure _))

/-- The ways to write a command of a family, where the registers are `r`: with an operand of any width in which the
value fits, with an opcode for this very character or font, or as a move by what the register holds. -/
inductive Spells (r : Registers) : Family → Int → List UInt8 → Prop
  | operand {f : Family} {w : Width} {v : Int} (h : w.Fits f.signed v) :
    Spells r f v ((f.opcode w).toByte :: digits w.bytes v)
  | setChar (code : Fin 128) : Spells r .set code.val [(Opcode.setChar code).toByte]
  | fontNum (id : Fin 64) : Spells r .font id.val [(Opcode.fontNum id).toByte]
  | stored (reg : Register) : Spells r (.move reg) (r.get reg).toInt [(Opcode.move reg none).toByte]

theorem refusal_opcode (f : Family) (w : Width) (site : Site) : Phase.inPage.refusal site (f.opcode w) = none := by
  cases f <;> rfl

theorem operands_opcode {f : Family} {w : Width} {v : Int} (h : w.Fits f.signed v) (offset : Nat) {c c' : Cursor}
    (hp : c.Passes (digits w.bytes v) c') : (f.opcode w).operands offset c = f.behind offset v c' := by
  cases f with
  | set | put | font =>
    have hread : w.unsigned c = (pure (UInt32.ofNat v.toNat) : Read UInt32) c' := Width.takes_unsigned_digits h hp
    exact map_congr hread _
  | special => exact bind_of_ok (Width.takes_unsigned_digits h hp)
  | fontDef => exact map_congr (bind_of_ok (Width.takes_unsigned_digits h hp)) _
  | right | down | move =>
    have hread : w.signed c = (pure (Int32.ofInt v) : Read Int32) c' := Width.takes_signed_digits h hp
    exact map_congr hread _

theorem fill_behind (r : Registers) (f : Family) (offset : Nat) (v : Int) :
    Command.fill r <$> f.behind offset v = f.behind offset v := by
  funext c
  cases f with
  | special =>
    simp only [behind, Command.readPayload, Functor.map, EStateM.map, Bind.bind, EStateM.bind]
    cases take (UInt32.ofNat v.toNat).toNat c <;> rfl
  | fontDef =>
    simp only [behind, Functor.map, EStateM.map]
    cases FontDefinition.readFields offset (UInt32.ofNat v.toNat) c <;> rfl
  | _ => rfl

/-- **Behind the operand all spellings of a command go on alike**, and on a page none is refused. -/
theorem Spells.exists_operands_eq {r : Registers} {f : Family} {v : Int} {bytes : List UInt8}
    (h : f.Spells r v bytes) : ∃ (o : Opcode) (bs : List UInt8), bytes = o.toByte :: bs ∧
      (∀ site, Phase.inPage.refusal site o = none) ∧
      ∀ (offset : Nat) {c c' : Cursor}, c.Passes bs c' →
        (Command.fill r <$> o.operands offset) c = f.behind offset v c' := by
  cases h with
  | @operand f w v hfits =>
    refine ⟨_, _, rfl, f.refusal_opcode w, fun offset c c' hp => ?_⟩
    rw [map_congr (operands_opcode hfits offset hp), fill_behind]
  | setChar code =>
    refine ⟨_, _, rfl, fun _ => rfl, fun offset c c' hp => ?_⟩
    rw [hp.unique (.refl c)]
    rfl
  | fontNum id =>
    refine ⟨_, _, rfl, fun _ => rfl, fun offset c c' hp => ?_⟩
    rw [hp.unique (.refl c)]
    rfl
  | stored reg =>
    refine ⟨_, _, rfl, fun _ => rfl, fun offset c c' hp => ?_⟩
    rw [hp.unique (.refl c), behind, Int32.ofInt_toInt]
    rfl

end Family

end Opcode

end Dvi
