import Dvi.Proofs.Stream.Spellings
import Dvi.Stream.Tape

/-!
# Readers of tapes

Tapes compute with words of the machine, cursors with numbers. What a tape reads is what a cursor reads that stands at
the same place: no word overflows on the way, nothing is taken from a smaller number, and all bytes that are asked for
are there.

* `Tape.word_eq`, `Tape.toInt_extendSign_three`: what shifts make of bytes;
* `written`: the number that bytes write, with or without sign. `Width.written_digits`: writing undone;
* `Tape.Shows`: a tape and a cursor at the same place;
* **`Tape.Follows`**: a reader of tapes does what a reader of cursors does. **`Tape.follows_unsigned`**,
  **`Tape.follows_signed`**: so do the readers of operands.
-/

namespace Dvi

open Read

/-! ## Numbers -/

/-- The number that bytes write, the most significant first. With a sign it is less by what the next digit in front
would count, if the first byte is 128 or more. -/
def written (signed : Bool) (bs : List UInt8) : Int :=
  bigEndian bs - if signed ∧ 128 ≤ bs.headD 0 then (Nat.pow 256 bs.length : Nat) else 0

theorem written_false (bs : List UInt8) : written false bs = bigEndian bs := by simp [written]

theorem bigEndian_cons (b : UInt8) (bs : List UInt8) :
    bigEndian (b :: bs) = b.toNat * Nat.pow 256 bs.length + bigEndian bs := by
  induction bs using List.reverseRecOn with
  | nil => simp [bigEndian]
  | append_singleton bs last ih =>
    have hpow : Nat.pow 256 (bs ++ [last]).length = 256 * Nat.pow 256 bs.length := by
      rw [List.length_append, List.length_singleton, Nat.pow_eq, Nat.pow_succ']
      rfl
    rw [← List.cons_append, bigEndian_concat, ih, bigEndian_concat, hpow, Nat.mul_add, Nat.mul_left_comm, Nat.add_assoc]

/-- To subtract on a high first byte is to read in two's complement. -/
theorem written_true (bs : List UInt8) : written true bs = Int.bmod (bigEndian bs) (Nat.pow 256 bs.length) := by
  cases bs with
  | nil => rfl
  | cons b bs =>
    have hrest := bigEndian_lt bs
    have hall := bigEndian_lt (b :: bs)
    have hcons := bigEndian_cons b bs
    have hpow : Nat.pow 256 (b :: bs).length = 256 * Nat.pow 256 bs.length := by
      rw [List.length_cons, Nat.pow_eq, Nat.pow_succ']
      rfl
    rw [written, Int.bmod_def, Int.emod_eq_of_lt (Int.natCast_nonneg _) (Int.ofNat_lt.2 hall), hpow, List.headD_cons]
    by_cases hb : 128 ≤ b
    · have hmul : 128 * Nat.pow 256 bs.length ≤ b.toNat * Nat.pow 256 bs.length :=
        Nat.mul_le_mul_right _ (UInt8.le_iff_toNat_le.1 hb)
      rw [if_pos ⟨rfl, hb⟩, if_neg (by omega)]
    · have hlow : b.toNat ≤ 127 := by
        have := mt UInt8.le_iff_toNat_le.2 hb
        change ¬128 ≤ b.toNat at this
        omega
      have hmul : b.toNat * Nat.pow 256 bs.length ≤ 127 * Nat.pow 256 bs.length := Nat.mul_le_mul_right _ hlow
      rw [if_neg fun h => hb h.2, if_pos (by omega)]
      exact Int.sub_zero _

/-- **A number is read back** from the digits in which it was written. -/
theorem Width.written_digits {w : Width} {signed : Bool} {v : Int} (h : w.Fits signed v) :
    written signed (digits w.bytes v) = v := by
  cases signed with
  | false => rw [written_false, bigEndian_digits h]
  | true => rw [written_true, length_digits, bmod_bigEndian_digits h]

theorem Read.size_of_take {n : Nat} {c c' : Cursor} {b : ByteArray} (h : take n c = .ok b c') : b.size = n := by
  obtain ⟨bs, -, ht⟩ := Local.takes h
  obtain ⟨hn, rfl⟩ := takes_take.1 ht
  exact hn

theorem Read.map_unsigned {α : Type} (n : Nat) (f : Nat → α) :
    f <$> Read.unsigned n = (fun b => f (bigEndian b.data.toList)) <$> take n := by
  simp only [Read.unsigned, map_eq_pure_bind, bind_assoc, pure_bind]

theorem Read.map_signed {α : Type} (n : Nat) (f : Int → α) :
    f <$> Read.signed n = (fun v : Nat => f (Int.bmod v (Nat.pow 256 n))) <$> Read.unsigned n := by
  simp only [Read.signed, map_eq_pure_bind, bind_assoc, pure_bind]

theorem Read.lt_of_unsigned {n v : Nat} {c c' : Cursor} (h : Read.unsigned n c = .ok v c') : v < Nat.pow 256 n := by
  obtain ⟨bs, -, ht⟩ := Local.takes h
  obtain ⟨rfl, rfl⟩ := Read.takes_unsigned.1 ht
  exact bigEndian_lt bs

theorem Read.bounds_of_signed {n : Nat} {v : Int} {c c' : Cursor} (h : Read.signed n c = .ok v c') :
    -((Nat.pow 256 n : Nat) : Int) ≤ v * 2 ∧ v * 2 < (Nat.pow 256 n : Nat) := by
  obtain ⟨bs, -, ht⟩ := Local.takes h
  obtain ⟨rfl, rfl⟩ := Read.takes_signed.1 ht
  have hpos : 0 < Nat.pow 256 bs.length := Nat.pow_pos (by decide)
  have hge := Int.le_bmod (x := bigEndian bs) hpos
  have hlt := Int.bmod_lt (x := bigEndian bs) hpos
  omega

namespace Tape

/-! ## Words -/

theorem toNat_length (s : ByteString) : s.length.toNat = s.bytes.size := USize.toNat_ofNatLT

theorem exists_add {a b : USize} (h : a.toNat + b.toNat < USize.size) :
    ∃ sum, add a b = .ok sum ∧ sum.toNat = a.toNat + b.toNat := by
  refine ⟨a + b, if_pos h, ?_⟩
  rw [USize.toNat_add]
  exact Nat.mod_eq_of_lt h

theorem exists_sub {a b : USize} (h : b.toNat ≤ a.toNat) :
    ∃ difference, sub a b = .ok difference ∧ difference.toNat = a.toNat - b.toNat := by
  have hle : b ≤ a := USize.le_iff_toNat_le.2 h
  exact ⟨a - b, if_pos hle, USize.toNat_sub_of_le a b hle⟩

theorem slice_eq {s : ByteString} {first stop : USize} (hfirst : first.toNat ≤ stop.toNat)
    (hstop : stop.toNat ≤ s.bytes.size) : slice s first stop = .ok (s.bytes.extract first.toNat stop.toNat) := by
  rw [← toNat_length] at hstop
  exact if_pos ⟨USize.le_iff_toNat_le.2 hfirst, USize.le_iff_toNat_le.2 hstop⟩

theorem shiftIn_ofNat (v : Nat) (b : UInt8) : shiftIn (.ofNat v) b = UInt64.ofNat (256 * v + b.toNat) := by
  -- the byte falls into the bits that the shift has emptied
  have hshift : (v % 2 ^ 64) <<< 8 % 2 ^ 64 = (v % 2 ^ 56) <<< 8 := by
    rw [Nat.shiftLeft_eq, Nat.shiftLeft_eq]
    omega
  have hb := b.toNat_lt
  refine UInt64.toNat_inj.1 ?_
  rw [shiftIn, UInt64.toNat_or, UInt64.toNat_shiftLeft, UInt64.toNat_ofNat', UInt64.toNat_ofNat', UInt8.toNat_toUInt64]
  show (v % 2 ^ 64) <<< 8 % 2 ^ 64 ||| b.toNat = (256 * v + b.toNat) % 2 ^ 64
  rw [hshift, ← Nat.shiftLeft_add_eq_or_of_lt hb, Nat.shiftLeft_eq]
  omega

theorem foldl_shiftIn (bs : List UInt8) (v : Nat) :
    bs.foldl shiftIn (.ofNat v) = UInt64.ofNat (bs.foldl (fun value b => 256 * value + b.toNat) v) := by
  induction bs generalizing v with
  | nil => rfl
  | cons b bs ih => rw [List.foldl_cons, List.foldl_cons, shiftIn_ofNat, ih]

theorem word_eq {n : Nat} {bytes : ByteArray} (h : bytes.size = n) :
    word n bytes = .ok (UInt64.ofNat (bigEndian bytes.data.toList)) := by
  subst h
  have hall : bytes.data.toList.take bytes.size = bytes.data.toList := List.take_length
  rw [word, if_pos (Nat.le_refl _), hall, bigEndian]
  exact congrArg Except.ok (foldl_shiftIn _ 0)

theorem front_eq {bytes : ByteArray} (h : bytes.size = 1) :
    front bytes = .ok (UInt8.ofNat (bigEndian bytes.data.toList)) := by
  obtain ⟨b, hb⟩ := List.length_eq_one_iff.1 h
  have hget : bytes[0]? = some b := by
    show bytes.data[0]? = some b
    rw [← Array.getElem?_toList, hb]
    rfl
  rw [front, hget, hb]
  simp [bigEndian]

/-- To shift left and back again is to extend the sign. -/
theorem toInt_extendSign_three (v : Nat) : (extendSign 3 (.ofNat v)).toInt = Int.bmod v (Nat.pow 256 3) := by
  have hbits : (extendSign 3 (.ofNat v)).toInt = ((BitVec.ofNat 64 v <<< 40).sshiftRight 40).toInt := rfl
  rw [hbits, BitVec.toInt_sshiftRight, BitVec.toInt_shiftLeft, BitVec.toNat_ofNat, Nat.shiftLeft_eq,
    Int.shiftRight_eq_div_pow]
  show Int.bmod _ 18446744073709551616 / 1099511627776 = Int.bmod v 16777216
  rw [Int.bmod_def, Int.bmod_def]
  omega

/-! ## Places -/

/-- The tape stands where the cursor stands, in the same bytes. -/
structure Shows (t : Tape) (c : Cursor) : Prop where
  data : t.data.bytes = c.data
  pos : t.pos.toNat = c.pos

namespace Shows

variable {t : Tape} {c : Cursor}

theorem start (data : ByteString) : (start data).Shows (.start data.bytes) := ⟨rfl, USize.toNat_zero⟩

theorem exists_remaining (h : t.Shows c) : ∃ left, t.remaining = .ok left ∧ left.toNat = c.remaining := by
  have hlength : t.data.length.toNat = c.data.size := by rw [toNat_length, h.data]
  have hle : t.pos.toNat ≤ t.data.length.toNat := by
    rw [h.pos, hlength]
    exact c.pos_le
  obtain ⟨left, hleft, hcount⟩ := exists_sub hle
  exact ⟨left, hleft, by rw [hcount, hlength, h.pos]; rfl⟩

theorem exists_slice (h : t.Shows c) {n : USize} (hn : n.toNat ≤ c.remaining) :
    ∃ stop, add t.pos n = .ok stop ∧ slice t.data t.pos stop = .ok (c.data.extract c.pos (c.pos + n.toNat)) ∧
      Shows { t with pos := stop } (c.advance n.toNat hn) := by
  have hlt := t.data.size_lt
  have hend := c.pos_add_remaining
  rw [h.data] at hlt
  obtain ⟨stop, hadd, hstop⟩ := exists_add (a := t.pos) (b := n) (by rw [h.pos]; omega)
  rw [h.pos] at hstop
  refine ⟨stop, hadd, ?_, h.data, hstop⟩
  rw [slice_eq (by rw [h.pos]; omega) (by rw [h.data]; omega), h.data, h.pos, hstop]

end Shows

/-! ## Readers -/

theorem get_bind {β : Type} (f : Tape → Reader β) (t : Tape) : ((get : Reader Tape) >>= f) t = f t t := rfl

theorem computing_bind {α β : Type} {x : Except Fault α} {a : α} (h : x = .ok a) (f : α → Reader β) (t : Tape) :
    (computing x >>= f) t = f a t := by
  subst h
  rfl

theorem take_of_lt {t : Tape} {c : Cursor} (h : t.Shows c) {n : USize} (hn : c.remaining < n.toNat) :
    take n t = .error (.error (.truncated ⟨c.pos, n.toNat, c.remaining⟩ none)) t := by
  obtain ⟨left, hleft, hcount⟩ := h.exists_remaining
  have hlt : left < n := by
    rw [USize.lt_iff_toNat_lt]
    omega
  rw [take, get_bind, computing_bind hleft, if_pos hlt, h.pos, hcount]
  rfl

theorem take_of_le {t : Tape} {c : Cursor} (h : t.Shows c) {n stop : USize} (hn : n.toNat ≤ c.remaining)
    (hadd : add t.pos n = .ok stop) {b : ByteArray} (hslice : slice t.data t.pos stop = .ok b) :
    take n t = .ok b { t with pos := stop } := by
  obtain ⟨left, hleft, hcount⟩ := h.exists_remaining
  have hge : ¬left < n := by
    rw [USize.lt_iff_toNat_lt]
    omega
  rw [take, get_bind, computing_bind hleft, if_neg hge, computing_bind hadd, hslice]
  rfl

/-- What a reader of tapes gives, seen from a reader of cursors: the same value at the same place; or the error that the
bytes are too few, and then the tape has not moved. -/
inductive Renders {α : Type} (t : Tape) : EStateM.Result Shortfall Cursor α → EStateM.Result Failure Tape α → Prop
  | ok {a : α} {c : Cursor} {t' : Tape} (hdata : t'.data = t.data) (h : t'.Shows c) : Renders t (.ok a c) (.ok a t')
  | error {s : Shortfall} {c : Cursor} : Renders t (.error s c) (.error (.error (.truncated s none)) t)

/-- The reader of tapes does what the reader of cursors does. -/
def Follows {α : Type} (r : Reader α) (s : Read α) : Prop :=
  ∀ ⦃t : Tape⦄ ⦃c : Cursor⦄, t.Shows c → t.Renders (s c) (r t)

theorem follows_take (n : USize) : Follows (take n) (Read.take n.toNat) := by
  intro t c h
  rw [Read.take]
  by_cases hn : n.toNat ≤ c.remaining
  · obtain ⟨stop, hadd, hslice, hshows⟩ := h.exists_slice hn
    rw [dif_pos hn, take_of_le h hn hadd hslice]
    exact .ok rfl hshows
  · rw [dif_neg hn, take_of_lt h (Nat.lt_of_not_le hn)]
    exact .error

theorem follows_bytes (n : USize) : Follows (bytes n) (Read.take n.toNat) := by
  intro t c h
  rw [Read.take, bytes, get_bind]
  by_cases hn : n.toNat ≤ c.remaining
  · obtain ⟨stop, hadd, hslice, hshows⟩ := h.exists_slice hn
    simp only [Bind.bind, EStateM.bind, dif_pos hn, take_of_le h hn hadd hslice, hadd, computing, hslice]
    exact .ok rfl hshows
  · simp only [Bind.bind, EStateM.bind, dif_neg hn, take_of_lt h (Nat.lt_of_not_le hn)]
    exact .error

namespace Follows

variable {α β γ : Type} {r : Reader β}

theorem map {s : Read α} {f : α → β} (h : Follows r (f <$> s)) (g : β → γ) {k : α → γ}
    (hk : ∀ {c c' : Cursor} {a : α}, s c = .ok a c' → g (f a) = k a) : Follows (g <$> r) (k <$> s) := by
  intro t c hshows
  have hr := h hshows
  simp only [Functor.map, EStateM.map] at hr ⊢
  generalize r t = y at hr ⊢
  cases hs : s c with
  | ok a c' =>
    rw [hs] at hr
    cases hr with | ok hdata hshows' =>
    simp only [hk hs]
    exact .ok hdata hshows'
  | error e c' =>
    rw [hs] at hr
    cases hr
    exact .error

/-- What is computed from bytes must be no fault for as many as are read. -/
theorem computing {n : USize} {m : Nat} (hm : n.toNat = m) {f : ByteArray → Except Fault β} {g : ByteArray → β}
    (hfg : ∀ b, b.size = m → f b = .ok (g b)) :
    Follows (take n >>= fun b => Tape.computing (f b)) (g <$> Read.take m) := by
  subst hm
  intro t c h
  have hr := follows_take n h
  simp only [Functor.map, EStateM.map, Bind.bind, EStateM.bind]
  generalize hx : Read.take n.toNat c = x at hr ⊢
  generalize take n t = y at hr ⊢
  cases hr with
  | ok hdata hshows =>
    simp only [hfg _ (size_of_take hx), Tape.computing]
    exact .ok hdata hshows
  | error => exact .error

end Follows

/-! ## Numbers of fixed width -/

theorem follows_number {n : Nat} (hn : n < 4294967296) : Follows (number n) (UInt64.ofNat <$> Read.unsigned n) := by
  rw [map_unsigned]
  exact .computing (USize.toNat_ofNat_of_lt_32 hn) fun _ hb => word_eq hb

theorem follows_u8 : Follows u8 Read.u8 := by
  show Follows u8 (UInt8.ofNat <$> Read.unsigned 1)
  rw [map_unsigned]
  exact .computing (USize.toNat_ofNat_of_lt_32 (by decide)) fun _ hb => front_eq hb

theorem follows_u16 : Follows u16 Read.u16 :=
  (follows_number (n := 2) (by decide)).map _ fun _ => UInt64.toUInt16_ofNat' _

theorem follows_u24 : Follows u24 Width.three.unsigned :=
  (follows_number (n := 3) (by decide)).map _ fun _ => UInt64.toUInt32_ofNat' _

theorem follows_u32 : Follows u32 Read.u32 :=
  (follows_number (n := 4) (by decide)).map _ fun _ => UInt64.toUInt32_ofNat' _

theorem follows_i8 : Follows i8 (Int8.ofInt <$> Read.signed 1) := by
  rw [map_signed]
  refine Follows.map follows_u8 UInt8.toInt8 fun {_ _ v} _ => ?_
  show (UInt8.ofNat v).toInt8 = Int8.ofInt (Int.bmod v Int8.size)
  rw [UInt8.toInt8_ofNat', ← Int8.ofInt_eq_ofNat, ← Int8.toInt_inj, Int8.toInt_ofInt, Int8.toInt_ofInt, Int.bmod_bmod]

theorem follows_i16 : Follows i16 (Int16.ofInt <$> Read.signed 2) := by
  rw [map_signed]
  refine (follows_number (n := 2) (by decide)).map (fun x => x.toUInt16.toInt16) fun {_ _ v} _ => ?_
  show (UInt64.ofNat v).toUInt16.toInt16 = Int16.ofInt (Int.bmod v Int16.size)
  rw [UInt64.toUInt16_ofNat', UInt16.toInt16_ofNat', ← Int16.ofInt_eq_ofNat, ← Int16.toInt_inj, Int16.toInt_ofInt,
    Int16.toInt_ofInt, Int.bmod_bmod]

theorem follows_i24 : Follows i24 Width.three.signed := by
  show Follows i24 (Int32.ofInt <$> Read.signed 3)
  rw [map_signed]
  refine (follows_number (n := 3) (by decide)).map (fun x => (extendSign 3 x).toInt32) fun {_ _ v} _ => ?_
  rw [← Int64.ofInt_toInt (extendSign 3 _), toInt_extendSign_three, Int64.toInt32_ofInt]

theorem follows_i32 : Follows i32 Read.i32 := by
  show Follows i32 (Int32.ofInt <$> Read.signed 4)
  rw [map_signed]
  refine (follows_number (n := 4) (by decide)).map (fun x => x.toUInt32.toInt32) fun {_ _ v} _ => ?_
  show (UInt64.ofNat v).toUInt32.toInt32 = Int32.ofInt (Int.bmod v Int32.size)
  rw [UInt64.toUInt32_ofNat', UInt32.toInt32_ofNat', ← Int32.ofInt_eq_ofNat, ← Int32.toInt_inj, Int32.toInt_ofInt,
    Int32.toInt_ofInt, Int.bmod_bmod]

/-! ## Operands -/

/-- **Operands without sign** are read by the machine as they are read by the library. -/
theorem follows_unsigned (w : Width) : Follows (unsigned (.ofNat w.bytes)) w.unsigned := by
  cases w with
  | one =>
    exact Follows.map follows_u8 UInt8.toUInt32 fun h => UInt8.toUInt32_ofNat' (lt_of_unsigned h)
  | two => exact Follows.map follows_u16 UInt16.toUInt32 fun h => UInt16.toUInt32_ofNat' (lt_of_unsigned h)
  | three => exact follows_u24
  | four => exact follows_u32

/-- **Operands with sign**, too. -/
theorem follows_signed (w : Width) : Follows (signed (.ofNat w.bytes)) w.signed := by
  cases w with
  | one =>
    refine Follows.map follows_i8 Int8.toInt32 fun {_ _ v} h => ?_
    obtain ⟨hge, hlt⟩ : -256 ≤ v * 2 ∧ v * 2 < 256 := bounds_of_signed h
    exact Int8.toInt32_ofInt (by show -128 ≤ v; omega) (by show v ≤ 127; omega)
  | two =>
    refine Follows.map follows_i16 Int16.toInt32 fun {_ _ v} h => ?_
    obtain ⟨hge, hlt⟩ : -65536 ≤ v * 2 ∧ v * 2 < 65536 := bounds_of_signed h
    exact Int16.toInt32_ofInt (by show -32768 ≤ v; omega) (by show v ≤ 32767; omega)
  | three => exact follows_i24
  | four => exact follows_i32

end Tape

end Dvi
