import Dvi.Stream.Cursor

/-!
# What readers find at an offset

A reader that is used at a known offset gives what the bytes there say, and leaves the cursor at a known offset
again. So reading one field after the other gives what looking up each field at its own offset gives.

* `numberAt`, `wordAt`: fields at absolute offsets;
* **`FindsAt`**: what a reader gives at an offset, and where the cursor stands then. It is closed under sequencing
  (`FindsAt.bind`) and repetition (`FindsAt.replicate`).
-/

namespace Dvi

/-- The number in the `n` bytes at an offset. -/
def numberAt (data : ByteArray) (offset n : Nat) : Nat :=
  bigEndian (data.extract offset (offset + n)).data.toList

/-- The signed word at an offset. -/
def wordAt (data : ByteArray) (offset : Nat) : Int32 := Int32.ofNat (numberAt data offset 4)

theorem toList_extract (data : ByteArray) (o n : Nat) :
    (data.extract o (o + n)).data.toList = (data.data.toList.drop o).take n := by
  rw [ByteArray.data_extract, Array.toList_extract, List.extract_eq_take_drop, Nat.add_sub_cancel_left]

theorem numberAt_lt (data : ByteArray) (o n : Nat) : numberAt data o n < Nat.pow 256 n := by
  refine Nat.lt_of_lt_of_le (bigEndian_lt _) (Nat.pow_le_pow_right (by decide) ?_)
  rw [toList_extract]
  exact List.length_take_le _ _

theorem numberAt_congr {data data' : ByteArray} {o n : Nat} (h : ∀ k < n, data'[o + k]? = data[o + k]?) :
    numberAt data' o n = numberAt data o n := by
  rw [numberAt, numberAt, toList_extract, toList_extract]
  refine congrArg bigEndian (List.ext_getElem? fun k => ?_)
  by_cases hk : k < n
  · rw [List.getElem?_take_of_lt hk, List.getElem?_take_of_lt hk, List.getElem?_drop, List.getElem?_drop,
      Array.getElem?_toList, Array.getElem?_toList]
    exact h k hk
  · rw [List.getElem?_take_eq_none (Nat.le_of_not_lt hk), List.getElem?_take_eq_none (Nat.le_of_not_lt hk)]

theorem numberAt_one {data : ByteArray} {o : Nat} {b : UInt8} (h : data[o]? = some b) :
    numberAt data o 1 = b.toNat := by
  have hbyte : data.data.toList[o]? = some b := by rwa [Array.getElem?_toList]
  have htake : (data.data.toList.drop o).take 1 = [b] := by
    rw [List.take_one, List.head?_drop, hbyte]
    rfl
  rw [numberAt, toList_extract, htake, bigEndian]
  simp

/-- At `offset`, the reader gives `a` and leaves the cursor at `next`. -/
def FindsAt {ε α : Type} (r : EStateM ε Cursor α) (data : ByteArray) (offset : Nat) (a : α) (next : Nat) : Prop :=
  ∀ c : Cursor, c.data = data → c.pos = offset → ∃ c', r c = .ok a c' ∧ c'.data = data ∧ c'.pos = next

namespace FindsAt

variable {ε α β : Type} {data : ByteArray} {o o' o'' : Nat}

theorem pure (a : α) : FindsAt (Pure.pure a : EStateM ε Cursor α) data o a o :=
  fun c hdata hpos => ⟨c, rfl, hdata, hpos⟩

theorem bind_eq {r : EStateM ε Cursor α} {a : α} (h : FindsAt r data o a o') {c : Cursor} (hdata : c.data = data)
    (hpos : c.pos = o) :
    ∃ c', c'.data = data ∧ c'.pos = o' ∧ ∀ {β : Type} (f : α → EStateM ε Cursor β), (r >>= f) c = f a c' := by
  obtain ⟨c', hr, hdata', hpos'⟩ := h c hdata hpos
  refine ⟨c', hdata', hpos', fun f => ?_⟩
  change EStateM.bind r f c = _
  rw [EStateM.bind, hr]

theorem bind {r : EStateM ε Cursor α} {f : α → EStateM ε Cursor β} {a : α} {b : β} (hr : FindsAt r data o a o')
    (hf : FindsAt (f a) data o' b o'') : FindsAt (r >>= f) data o b o'' := by
  intro c hdata hpos
  obtain ⟨c', hdata', hpos', hbind⟩ := hr.bind_eq hdata hpos
  rw [hbind]
  exact hf c' hdata' hpos'

theorem map {r : EStateM ε Cursor α} {a : α} (hr : FindsAt r data o a o') (f : α → β) :
    FindsAt (r >>= fun x => Pure.pure (f x)) data o (f a) o' :=
  hr.bind (.pure _)

end FindsAt

namespace Read

variable {α : Type} {data : ByteArray} {o n : Nat}

theorem findsAt_take (h : o + n ≤ data.size) : FindsAt (take n) data o (data.extract o (o + n)) (o + n) := by
  rintro c rfl rfl
  have hn : n ≤ c.remaining := by
    have := c.pos_add_remaining
    omega
  exact ⟨c.advance n hn, by rw [take, dif_pos hn], rfl, rfl⟩

theorem findsAt_unsigned (h : o + n ≤ data.size) : FindsAt (unsigned n) data o (numberAt data o n) (o + n) :=
  (findsAt_take h).map _

theorem findsAt_u16 (h : o + 2 ≤ data.size) : FindsAt u16 data o (UInt16.ofNat (numberAt data o 2)) (o + 2) :=
  (findsAt_unsigned h).map _

theorem findsAt_u32 (h : o + 4 ≤ data.size) : FindsAt u32 data o (UInt32.ofNat (numberAt data o 4)) (o + 4) :=
  (findsAt_unsigned h).map _

theorem findsAt_i32 (h : o + 4 ≤ data.size) : FindsAt i32 data o (wordAt data o) (o + 4) := by
  have hword : Int32.ofInt (Int.bmod (numberAt data o 4) (Nat.pow 256 4)) = wordAt data o := by
    have hsize : Nat.pow 256 4 = Int32.size := rfl
    rw [wordAt, ← Int32.ofInt_eq_ofNat, ← Int32.toInt_inj, Int32.toInt_ofInt, Int32.toInt_ofInt, hsize, Int.bmod_bmod]
  rw [← hword]
  exact ((findsAt_unsigned h).map fun n => Int.bmod n (Nat.pow 256 4)).map _

/-- A reader that is repeated finds the fields one behind the other. -/
theorem findsAt_replicate {r : Read α} {f : Nat → α} {k : Nat}
    (h : ∀ i < k, FindsAt r data (o + n * i) (f i) (o + n * i + n)) :
    FindsAt (replicate r k) data o (Vector.ofFn fun i : Fin k => f i) (o + n * k) := by
  induction k with
  | zero =>
    have hempty : (#v[] : Vector α 0) = Vector.ofFn fun i : Fin 0 => f i :=
      Vector.ext fun i hi => absurd hi i.not_lt_zero
    rw [← hempty]
    exact .pure _
  | succ k ih =>
    have hfront := ih fun i hi => h i (Nat.lt_succ_of_lt hi)
    have hlast := h k (Nat.lt_succ_self k)
    rw [Vector.ofFn_succ, Nat.mul_succ, ← Nat.add_assoc]
    exact hfront.bind (hlast.map fun a => (Vector.ofFn fun i : Fin k => f i).push a)

end Read

end Dvi
