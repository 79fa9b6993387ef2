import Dvi.Proofs.Stream.TapeReaders
import Dvi.Stream.Offset

/-!
# Histories of tapes

Whatever was asked of a tape, what is asked next is answered from the bytes at its position, or refused for want of bytes,
and then the tape stands where it stood.

* `Tape.Request.wants`, `Tape.Request.answer`: how much a request reads, and what these bytes are turned into;
* `Tape.Request.follows_serve`: a request that reads does so as a cursor does;
* `Tape.Request.exists_served`: no request ends in a fault, and what can come of it is one of six things;
* `Tape.exists_run`: after all requests the tape stands inside its bytes;
* **`Tape.Sound`, `Tape.run_sound`**: what can be relied on after any history.
-/

namespace Dvi

open Read

namespace Tape

/-- The bytes from the position to the end. -/
def rest (t : Tape) : List UInt8 := t.data.bytes.data.toList.drop t.pos.toNat

theorem Shows.rest_eq {t : Tape} {c : Cursor} (h : t.Shows c) : t.rest = c.rest := by
  rw [rest, Cursor.rest, h.data, h.pos]

theorem Shows.pos_advance {t t' : Tape} {c : Cursor} (h : t.Shows c) {n : Nat} {hn : n ≤ c.remaining}
    (h' : t'.Shows (c.advance n hn)) : t'.pos.toNat = t.pos.toNat + n := by
  rw [h'.pos, h.pos]
  rfl

theorem toNat_ofNat_bytes (w : Width) : (USize.ofNat w.bytes).toNat = w.bytes :=
  USize.toNat_ofNat_of_lt_32 (Nat.lt_of_le_of_lt w.bytes_le (by decide))

namespace Request

/-- How many bytes a request reads, if it reads. -/
def wants : Request → Option USize
  | .number _ w | .operand _ w => some (.ofNat w.bytes)
  | .bytes n | .skip n => some n
  | .seek _ | .peek | .byteAt _ => none

/-- The answer to a request that has read some bytes. -/
def answer (bs : List UInt8) : Request → Answer
  | .number signed _ | .operand signed _ => .number (written signed bs)
  | .bytes _ => .bytes ⟨bs.toArray⟩
  | .skip _ | .seek _ | .peek | .byteAt _ => .done

/-! ## Numbers -/

theorem map_written_false {α : Type} (n : Nat) (f : Int → α) :
    (fun b : ByteArray => f (written false b.data.toList)) <$> Read.take n = (fun v : Nat => f v) <$> Read.unsigned n := by
  rw [map_unsigned]
  simp only [written_false]

theorem map_written_true {α : Type} (n : Nat) (f : Int → α) :
    (fun b : ByteArray => f (written true b.data.toList)) <$> Read.take n = f <$> Read.signed n := by
  rw [map_signed, map_unsigned]
  funext c
  simp only [Functor.map, EStateM.map]
  cases hread : Read.take n c with
  | ok b c' =>
    have hsize : b.data.toList.length = n := size_of_take hread
    simp only [written_true, hsize]
  | error => rfl

theorem pow_bytes_le (w : Width) : Nat.pow 256 w.bytes ≤ 4294967296 := by cases w <;> decide

theorem follows_serve_operand (signed : Bool) (w : Width) :
    Follows (serve (.operand signed w)) ((fun b => .number (written signed b.data.toList)) <$> Read.take w.bytes) := by
  have hpow := pow_bytes_le w
  cases signed with
  | false =>
    rw [map_written_false]
    refine Follows.map (follows_unsigned w) (fun x => Answer.number x.toNat) fun h => ?_
    have hlt := lt_of_unsigned h
    rw [UInt32.toNat_ofNat_of_lt' (Nat.lt_of_lt_of_le hlt hpow)]
  | true =>
    rw [map_written_true]
    refine Follows.map (follows_signed w) (fun x => Answer.number x.toInt) fun h => ?_
    have hbounds := bounds_of_signed h
    rw [Int32.toInt_ofInt_of_le (by omega) (by omega)]

/-- Three and four bytes have the type of all operands. -/
theorem follows_serve_number (signed : Bool) (w : Width) :
    Follows (serve (.number signed w)) ((fun b => .number (written signed b.data.toList)) <$> Read.take w.bytes) := by
  cases signed with
  | false =>
    cases w with
    | one =>
      rw [map_written_false]
      refine Follows.map follows_u8 (fun x => Answer.number x.toNat) fun h => ?_
      rw [UInt8.toNat_ofNat_of_lt' (lt_of_unsigned h)]
    | two =>
      rw [map_written_false]
      refine Follows.map follows_u16 (fun x => Answer.number x.toNat) fun h => ?_
      rw [UInt16.toNat_ofNat_of_lt' (lt_of_unsigned h)]
    | three => exact follows_serve_operand false .three
    | four => exact follows_serve_operand false .four
  | true =>
    cases w with
    | one =>
      rw [map_written_true]
      refine Follows.map follows_i8 (fun x => Answer.number x.toInt) fun {_ _ v} h => ?_
      obtain ⟨hge, hlt⟩ : -256 ≤ v * 2 ∧ v * 2 < 256 := bounds_of_signed h
      rw [Int8.toInt_ofInt_of_le (by omega) (by omega)]
    | two =>
      rw [map_written_true]
      refine Follows.map follows_i16 (fun x => Answer.number x.toInt) fun {_ _ v} h => ?_
      obtain ⟨hge, hlt⟩ : -65536 ≤ v * 2 ∧ v * 2 < 65536 := bounds_of_signed h
      rw [Int16.toInt_ofInt_of_le (by omega) (by omega)]
    | three => exact follows_serve_operand true .three
    | four => exact follows_serve_operand true .four

/-! ## One request -/

/-- **A request that reads** does so as a cursor does. -/
theorem follows_serve {r : Request} {n : USize} (h : r.wants = some n) :
    Follows r.serve ((fun b => r.answer b.data.toList) <$> Read.take n.toNat) := by
  cases r with
  | number signed w =>
    cases h
    rw [toNat_ofNat_bytes]
    exact follows_serve_number signed w
  | operand signed w =>
    cases h
    rw [toNat_ofNat_bytes]
    exact follows_serve_operand signed w
  | bytes =>
    cases h
    refine Follows.map (f := id) (by rw [id_map]; exact follows_bytes n) Answer.bytes fun _ => rfl
  | skip =>
    cases h
    refine Follows.map (f := id) (by rw [id_map]; exact follows_take n) _ fun _ => rfl
  | seek | peek | byteAt => cases h

variable {t : Tape} {c : Cursor}

theorem step_of_lt (hshows : t.Shows c) {r : Request} {n : USize} (h : r.wants = some n)
    (hn : c.remaining < n.toNat) :
    r.step t = .ok (.error (.truncated ⟨c.pos, n.toNat, c.remaining⟩ none), t) := by
  have hr := follows_serve h hshows
  simp only [Functor.map, EStateM.map, Read.take, dif_neg (Nat.not_le_of_lt hn)] at hr
  rw [step]
  generalize r.serve t = y at hr ⊢
  cases hr
  rfl

theorem exists_step_of_le (hshows : t.Shows c) {r : Request} {n : USize} (h : r.wants = some n)
    (hn : n.toNat ≤ c.remaining) :
    ∃ t', r.step t = .ok (.ok (r.answer (t.rest.take n.toNat)), t') ∧ t'.data = t.data ∧
      t'.Shows (c.advance n.toNat hn) := by
  have hr := follows_serve h hshows
  simp only [Functor.map, EStateM.map, Read.take, dif_pos hn, toList_extract] at hr
  rw [hshows.rest_eq, step]
  generalize r.serve t = y at hr ⊢
  cases hr with | ok hdata hshows' =>
  exact ⟨_, rfl, hdata, hshows'⟩

theorem step_seek_of_lt {pos : USize} (h : t.data.length < pos) :
    (Request.seek pos).step t = .ok (.error (.outOfRange pos.toNat t.data.bytes.size), t) := by
  rw [← toNat_length]
  simp only [step, serve, Tape.seek, Functor.map, EStateM.map, get_bind, if_pos h]
  rfl

theorem step_seek_of_le {pos : USize} (h : pos ≤ t.data.length) :
    (Request.seek pos).step t = .ok (.ok .done, { t with pos := pos }) := by
  have hge : ¬t.data.length < pos := USize.not_lt.2 h
  simp only [step, serve, Tape.seek, Functor.map, EStateM.map, get_bind, if_neg hge]
  rfl

/-- What can come of a request to a tape that shows a cursor: the outcome, and the tape after it. -/
inductive Served (t : Tape) (c : Cursor) : Request → Except Error Answer → Tape → Prop
  | short {r : Request} {n : USize} (h : r.wants = some n) (hn : c.remaining < n.toNat) :
    Served t c r (.error (.truncated ⟨c.pos, n.toNat, c.remaining⟩ none)) t
  | read {r : Request} {n : USize} {t' : Tape} (h : r.wants = some n) (hn : n.toNat ≤ c.remaining)
    (hdata : t'.data = t.data) (hshows : t'.Shows (c.advance n.toNat hn)) :
    Served t c r (.ok (r.answer (t.rest.take n.toNat))) t'
  | beyond {pos : USize} (h : t.data.length < pos) :
    Served t c (.seek pos) (.error (.outOfRange pos.toNat t.data.bytes.size)) t
  | moved {pos : USize} (h : pos ≤ t.data.length) : Served t c (.seek pos) (.ok .done) { t with pos := pos }
  | peek : Served t c .peek (.ok (.byte t.peek)) t
  | byteAt (pos : USize) : Served t c (.byteAt pos) (.ok (.byte (t.data.get? pos))) t

/-- **Nothing else comes of a request**, and in particular no fault. -/
theorem exists_served (hshows : t.Shows c) (r : Request) :
    ∃ outcome t', r.step t = .ok (outcome, t') ∧ Served t c r outcome t' := by
  cases hwants : r.wants with
  | some n =>
    by_cases hn : n.toNat ≤ c.remaining
    · obtain ⟨t', hstep, hdata, hshows'⟩ := exists_step_of_le hshows hwants hn
      exact ⟨_, t', hstep, .read hwants hn hdata hshows'⟩
    · have hlt := Nat.lt_of_not_le hn
      exact ⟨_, t, step_of_lt hshows hwants hlt, .short hwants hlt⟩
  | none =>
    cases r with
    | seek pos =>
      by_cases hpos : t.data.length < pos
      · exact ⟨_, t, step_seek_of_lt hpos, .beyond hpos⟩
      · have hle : pos ≤ t.data.length := USize.not_lt.1 hpos
        exact ⟨_, _, step_seek_of_le hle, .moved hle⟩
    | peek => exact ⟨_, t, rfl, .peek⟩
    | byteAt pos => exact ⟨_, t, rfl, .byteAt pos⟩
    | number | operand | bytes | skip => cases hwants

namespace Served

variable {r : Request} {outcome : Except Error Answer} {t' : Tape}

theorem exists_shows (h : Served t c r outcome t') (hshows : t.Shows c) :
    ∃ c' : Cursor, t'.data = t.data ∧ t'.Shows c' := by
  cases h with
  | read _ hn hdata hshows' => exact ⟨_, hdata, hshows'⟩
  | @moved pos h =>
    have hle : pos.toNat ≤ c.data.size := by
      rw [← hshows.data, ← toNat_length]
      exact USize.le_iff_toNat_le.1 h
    exact ⟨⟨c.data, pos.toNat, hle⟩, rfl, hshows.data, rfl⟩
  | short | beyond | peek | byteAt => exact ⟨c, rfl, hshows⟩

theorem eq_of_error {e : Error} (h : Served t c r (.error e) t') : t' = t := by
  cases h <;> rfl

end Served

end Request

/-! ## Histories -/

theorem run_concat {t t₁ t₂ : Tape} {history : List Request} {r : Request} {outcomes : List (Except Error Answer)}
    {outcome : Except Error Answer} (h : t.run history = .ok (outcomes, t₁)) (hstep : r.step t₁ = .ok (outcome, t₂)) :
    t.run (history ++ [r]) = .ok (outcomes ++ [outcome], t₂) := by
  induction history generalizing t outcomes with
  | nil =>
    cases h
    simp only [List.nil_append, run, hstep, Bind.bind, Except.bind, Pure.pure, Except.pure]
  | cons r₀ rs ih =>
    simp only [run, Bind.bind, Except.bind] at h
    cases hfirst : r₀.step t with
    | error => simp only [hfirst, reduceCtorEq] at h
    | ok first =>
      cases hrest : first.2.run rs with
      | error => simp only [hfirst, hrest, reduceCtorEq] at h
      | ok rest =>
        simp only [hfirst, hrest] at h
        cases h
        simp only [List.cons_append, run, hfirst, ih hrest, Bind.bind, Except.bind, Pure.pure, Except.pure]

theorem exists_run {t : Tape} {c : Cursor} (hshows : t.Shows c) (history : List Request) :
    ∃ outcomes t' c', t.run history = .ok (outcomes, t') ∧ t'.data = t.data ∧ t'.Shows c' := by
  -- from the end, since the cursor that is shown is that of the last step
  induction history using List.reverseRecOn with
  | nil => exact ⟨[], t, c, rfl, rfl, hshows⟩
  | append_singleton rs r ih =>
    obtain ⟨outcomes, t₁, c₁, hrun, hdata, hshows₁⟩ := ih
    obtain ⟨outcome, t₂, hstep, hserved⟩ := r.exists_served hshows₁
    obtain ⟨c₂, hdata₂, hshows₂⟩ := hserved.exists_shows hshows₁
    exact ⟨outcomes ++ [outcome], t₂, c₂, run_concat hrun hstep, hdata₂.trans hdata, hshows₂⟩

theorem exists_step_of_digits {t : Tape} {c : Cursor} (hshows : t.Shows c) {signed : Bool} {w : Width} {v : Int}
    (h : w.Fits signed v) (hahead : digits w.bytes v <+: t.rest) {r : Request}
    (hr : r = .number signed w ∨ r = .operand signed w) :
    ∃ t', r.step t = .ok (.ok (.number v), t') ∧ t'.data = t.data ∧ t'.pos.toNat = t.pos.toNat + w.bytes := by
  have hwidth := toNat_ofNat_bytes w
  have htake : t.rest.take w.bytes = digits w.bytes v := by
    have := List.prefix_iff_eq_take.1 hahead
    rw [length_digits] at this
    exact this.symm
  have hn : (USize.ofNat w.bytes).toNat ≤ c.remaining := by
    have := hahead.length_le
    rw [length_digits, hshows.rest_eq, c.length_rest] at this
    rwa [hwidth]
  have hwants : r.wants = some (.ofNat w.bytes) := by rcases hr with rfl | rfl <;> rfl
  have hanswer : r.answer (digits w.bytes v) = .number v := by
    rcases hr with rfl | rfl <;> exact congrArg Answer.number (Width.written_digits h)
  obtain ⟨t', hstep, hdata, hshows'⟩ := Request.exists_step_of_le hshows hwants hn
  rw [hwidth, htake, hanswer] at hstep
  exact ⟨t', hstep, hdata, by rw [hshows.pos_advance hshows', hwidth]⟩

theorem Shows.atEnd_iff {t : Tape} {c : Cursor} (h : t.Shows c) : t.atEnd = true ↔ c.remaining = 0 := by
  have hend := c.pos_add_remaining
  rw [atEnd, decide_eq_true_iff, USize.le_iff_toNat_le, toNat_length, h.data, h.pos]
  omega

/-! ## Soundness -/

/-- What can be relied on at a tape over the bytes of `s`, of which `left` are left. -/
structure Sound (s : ByteString) (left : USize) (t : Tape) : Prop where
  data : t.data = s
  pos_le : t.pos.toNat ≤ s.bytes.size
  remaining : t.remaining = .ok left
  pos_add_left : t.pos.toNat + left.toNat = s.bytes.size
  atEnd_iff : t.atEnd = true ↔ left.toNat = 0
  /-- what wants too much fails, and says where, what it wants and what is left -/
  short : ∀ {r : Request} {n : USize}, r.wants = some n → left < n →
    r.step t = .ok (.error (.truncated ⟨t.pos.toNat, n.toNat, left.toNat⟩ none), t)
  /-- all else is answered from the bytes ahead, and moves on behind them -/
  read : ∀ {r : Request} {n : USize}, r.wants = some n → n ≤ left →
    ∃ t' : Tape, r.step t = .ok (.ok (r.answer (t.rest.take n.toNat)), t') ∧ t'.data = s ∧
      t'.pos.toNat = t.pos.toNat + n.toNat
  beyond : ∀ {pos : USize}, s.length < pos →
    (Request.seek pos).step t = .ok (.error (.outOfRange pos.toNat s.bytes.size), t)
  moved : ∀ {pos : USize}, pos ≤ s.length → (Request.seek pos).step t = .ok (.ok .done, ⟨s, pos⟩)
  peek : Request.peek.step t = .ok (.ok (.byte s.bytes[t.pos.toNat]?), t)
  byteAt : ∀ pos : USize, (Request.byteAt pos).step t = .ok (.ok (.byte s.bytes[pos.toNat]?), t)
  unmoved : ∀ {r : Request} {e : Error} {t' : Tape}, r.step t = .ok (.error e, t') → t' = t
  /-- a number is read back where its digits are ahead -/
  read_back : ∀ {signed : Bool} {w : Width} {v : Int}, w.Fits signed v → digits w.bytes v <+: t.rest →
    ∀ {r : Request}, r = .number signed w ∨ r = .operand signed w →
      ∃ t' : Tape, r.step t = .ok (.ok (.number v), t') ∧ t'.data = s ∧ t'.pos.toNat = t.pos.toNat + w.bytes

theorem Shows.exists_sound {t : Tape} {c : Cursor} (h : t.Shows c) : ∃ left, t.Sound t.data left := by
  obtain ⟨left, hleft, hcount⟩ := h.exists_remaining
  have hend := c.pos_add_remaining
  rw [← h.data, ← h.pos, ← hcount] at hend
  exact ⟨left, {
    data := rfl
    pos_le := by omega
    remaining := hleft
    pos_add_left := hend
    atEnd_iff := by rw [h.atEnd_iff, hcount]
    short := fun hwants hlt => by
      rw [USize.lt_iff_toNat_lt, hcount] at hlt
      rw [h.pos, hcount]
      exact Request.step_of_lt h hwants hlt
    read := fun hwants hle => by
      rw [USize.le_iff_toNat_le, hcount] at hle
      obtain ⟨t', hstep, hdata, hshows'⟩ := Request.exists_step_of_le h hwants hle
      exact ⟨t', hstep, hdata, h.pos_advance hshows'⟩
    beyond := Request.step_seek_of_lt
    moved := Request.step_seek_of_le
    peek := rfl
    byteAt := fun _ => rfl
    unmoved := fun {r _ _} hstep => by
      obtain ⟨outcome, t₁, hstep₁, hserved⟩ := r.exists_served h
      rw [hstep₁] at hstep
      cases hstep
      exact hserved.eq_of_error
    read_back := fun hfits hahead _ hr => exists_step_of_digits h hfits hahead hr }⟩

/-- **Whatever was asked of a tape, no word has overflowed and nothing was taken from a smaller number**; the outcomes are
those so far with one more for each request. The position is inside the string or at its end, with what is left of the
string behind it. Whatever is asked next, a read fails exactly if it wants more than is left, else it moves on by what it
reads and answers from these bytes; a move fails exactly if it leads beyond the end; what fails leaves the tape where it
was. A number whose digits are ahead is read back, in every width in which it can be written, with a sign or without. -/
theorem run_sound (data : ByteString) (history : List Request) :
    ∃ (outcomes : List (Except Error Answer)) (t : Tape) (left : USize),
      (start data).run history = .ok (outcomes, t) ∧ t.Sound data left ∧
      ∀ (r : Request) (outcome : Except Error Answer) (t' : Tape), r.step t = .ok (outcome, t') →
        (start data).run (history ++ [r]) = .ok (outcomes ++ [outcome], t') := by
  obtain ⟨outcomes, t, c, hrun, rfl, hshows⟩ := exists_run (.start data) history
  obtain ⟨left, hsound⟩ := hshows.exists_sound
  exact ⟨outcomes, t, left, hrun, hsound, fun r outcome t' hstep => run_concat hrun hstep⟩

end Tape

end Dvi
