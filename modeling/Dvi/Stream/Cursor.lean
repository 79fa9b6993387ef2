/-!
# A read position in a byte string

A `Cursor` is a byte string with a position inside it. Every reader takes big-endian fields from the
front and either succeeds and moves past them, or reports a `Shortfall` and stays where it is.

* `Cursor`, `Cursor.seek`, `Cursor.byteAt`: the position and the ways to place it;
* `Read`: readers that keep the cursor also when they fail, so a caller sees where the reading stopped;
* `take`, `unsigned`, `signed` and the fixed widths `u8`, `u16`, `u32`, `i32`;
* **`Forward`**: a reader never changes the bytes and never moves back. All readers of this library are
  built from `take`, and `Forward` is closed under sequencing; loops over a stream end because of it.
-/

namespace Dvi

/-- A byte string and a position between its start and its end. -/
structure Cursor where
  data : ByteArray
  pos : Nat
  pos_le : pos ≤ data.size

namespace Cursor

/-- The cursor before the first byte of `data`. -/
def start (data : ByteArray) : Cursor := ⟨data, 0, Nat.zero_le _⟩

/-- The number of bytes from the position to the end. -/
def remaining (c : Cursor) : Nat := c.data.size - c.pos

/-- The cursor at absolute position `pos`, if that lies inside the string or at its end. -/
def seek (c : Cursor) (pos : Nat) : Option Cursor :=
  if h : pos ≤ c.data.size then some ⟨c.data, pos, h⟩ else none

/-- The byte at absolute position `pos`. -/
def byteAt (c : Cursor) (pos : Nat) : Option UInt8 := c.data[pos]?

/-- The next byte, which stays unread. -/
def peek (c : Cursor) : Option UInt8 := c.byteAt c.pos

theorem pos_add_remaining (c : Cursor) : c.pos + c.remaining = c.data.size :=
  Nat.add_sub_cancel' c.pos_le

/-- The cursor behind the next `n` bytes. -/
def advance (c : Cursor) (n : Nat) (h : n ≤ c.remaining) : Cursor :=
  ⟨c.data, c.pos + n, by have := c.pos_add_remaining; omega⟩

end Cursor

/-- A read that asked at `offset` for more bytes than there were. -/
structure Shortfall where
  offset : Nat
  wanted : Nat
  remaining : Nat
  deriving DecidableEq, Repr

/-- A reader: a value and the cursor after it, or a shortfall and the cursor where it happened. -/
abbrev Read (α : Type) : Type := EStateM Shortfall Cursor α

/-- The number that `bytes` write in base 256, the most significant byte first. -/
def bigEndian (bytes : List UInt8) : Nat := bytes.foldl (fun value b => 256 * value + b.toNat) 0

theorem bigEndian_lt (bs : List UInt8) : bigEndian bs < Nat.pow 256 bs.length := by
  have hfold (v : Nat) : bs.foldl (fun value b => 256 * value + b.toNat) v < (v + 1) * Nat.pow 256 bs.length := by
    induction bs generalizing v with
    | nil => exact Nat.lt_of_lt_of_eq (Nat.lt_succ_self v) (Nat.mul_one _).symm
    | cons b bs ih =>
      have hb : 256 * v + b.toNat + 1 ≤ (v + 1) * 256 := by
        have := b.toNat_lt
        omega
      have hpow : (v + 1) * Nat.pow 256 (b :: bs).length = (v + 1) * 256 * Nat.pow 256 bs.length := by
        rw [List.length_cons, Nat.pow_eq, Nat.pow_succ', Nat.mul_assoc]
        rfl
      rw [List.foldl_cons, hpow]
      exact Nat.lt_of_lt_of_le (ih _) (Nat.mul_le_mul_right _ hb)
  have hzero := hfold 0
  rwa [Nat.zero_add, Nat.one_mul] at hzero

namespace Read

/-- The cursor that a reader leaves behind, whatever its outcome. -/
def after {α : Type} (r : Read α) (c : Cursor) : Cursor :=
  match r c with
  | .ok _ c' => c'
  | .error _ c' => c'

/-- The next `n` bytes. -/
def take (n : Nat) : Read ByteArray := fun c =>
  if h : n ≤ c.remaining then
    .ok (c.data.extract c.pos (c.pos + n)) (c.advance n h)
  else
    .error ⟨c.pos, n, c.remaining⟩ c

/-- A field of `n` bytes without sign. -/
def unsigned (n : Nat) : Read Nat := do
  return bigEndian (← take n).data.toList

/-- A signed field of `n` bytes, in two's complement. -/
def signed (n : Nat) : Read Int := do
  return Int.bmod (← unsigned n) (Nat.pow 256 n)

/-- A byte. -/
def u8 : Read UInt8 := do return UInt8.ofNat (← unsigned 1)

/-- A field of two bytes without sign. -/
def u16 : Read UInt16 := do return UInt16.ofNat (← unsigned 2)

/-- A field of four bytes without sign. -/
def u32 : Read UInt32 := do return UInt32.ofNat (← unsigned 4)

/-- A field of four bytes, in two's complement. -/
def i32 : Read Int32 := do return Int32.ofInt (← signed 4)

/-- The same field `n` times. -/
def replicate {α : Type} (r : Read α) : (n : Nat) → Read (Vector α n)
  | 0 => pure #v[]
  | n + 1 => do
    let values ← replicate r n
    return values.push (← r)

/-! ## Readers go forward -/

/-- The reader keeps the bytes and does not move back. -/
def Forward {α : Type} (r : Read α) : Prop :=
  ∀ c : Cursor, (r.after c).data = c.data ∧ c.pos ≤ (r.after c).pos

theorem forward_pure {α : Type} (a : α) : Forward (pure a : Read α) := fun _ => ⟨rfl, Nat.le_refl _⟩

theorem Forward.bind {α β : Type} {r : Read α} {f : α → Read β} (hr : Forward r)
    (hf : ∀ a, Forward (f a)) : Forward (r >>= f) := by
  intro c
  have h := hr c
  simp only [after, Bind.bind, EStateM.bind] at h ⊢
  cases e : r c with
  | ok a c' =>
    rw [e] at h
    have h' := hf a c'
    exact ⟨h'.1.trans h.1, Nat.le_trans h.2 h'.2⟩
  | error s c' =>
    rw [e] at h
    exact h

theorem forward_take (n : Nat) : Forward (take n) := by
  intro c
  simp only [after, take]
  split <;> rename_i e <;> split at e <;> cases e
  · exact ⟨rfl, Nat.le_add_right _ _⟩
  · exact ⟨rfl, Nat.le_refl _⟩

theorem forward_unsigned (n : Nat) : Forward (unsigned n) :=
  (forward_take n).bind fun _ => forward_pure _

theorem forward_signed (n : Nat) : Forward (signed n) :=
  (forward_unsigned n).bind fun _ => forward_pure _

theorem forward_u8 : Forward u8 := (forward_unsigned 1).bind fun _ => forward_pure _

theorem forward_u16 : Forward u16 := (forward_unsigned 2).bind fun _ => forward_pure _

theorem forward_u32 : Forward u32 := (forward_unsigned 4).bind fun _ => forward_pure _

theorem forward_i32 : Forward i32 := (forward_signed 4).bind fun _ => forward_pure _

theorem Forward.replicate {α : Type} {r : Read α} (hr : Forward r) :
    ∀ n, Forward (Read.replicate r n)
  | 0 => forward_pure _
  | n + 1 => (Forward.replicate hr n).bind fun _ => hr.bind fun _ => forward_pure _

theorem Forward.remaining_le {α : Type} {r : Read α} (hr : Forward r) (c : Cursor) :
    (r.after c).remaining ≤ c.remaining := by
  have h := hr c
  have h₁ := (r.after c).pos_add_remaining
  have h₂ := c.pos_add_remaining
  rw [h.1] at h₁
  omega

theorem remaining_of_take {n : Nat} {c c' : Cursor} {bytes : ByteArray}
    (h : take n c = .ok bytes c') : c'.remaining + n = c.remaining := by
  unfold take at h
  split at h
  · rename_i hn
    cases h
    simp only [Cursor.advance, Cursor.remaining] at hn ⊢
    omega
  · cases h

theorem remaining_of_unsigned {n v : Nat} {c c' : Cursor} (h : unsigned n c = .ok v c') :
    c'.remaining + n = c.remaining := by
  simp only [unsigned, Bind.bind, EStateM.bind] at h
  split at h
  · rename_i e
    cases h
    exact remaining_of_take e
  · cases h

theorem remaining_of_u8 {c c' : Cursor} {b : UInt8} (h : u8 c = .ok b c') :
    c'.remaining + 1 = c.remaining := by
  simp only [u8, Bind.bind, EStateM.bind] at h
  split at h
  · rename_i e
    cases h
    exact remaining_of_unsigned e
  · cases h

end Read

end Dvi
