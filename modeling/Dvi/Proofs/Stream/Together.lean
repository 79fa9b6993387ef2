import Dvi.Proofs.Stream.Takes

/-!
# Reading two streams together

A reader at the same place of two streams of one length. Where it moves depends on some of the bytes only; if the
streams agree on these, it moves in one as it does in the other, or falls short in both in the same way.

* `Cursor.Agree`: two cursors in the same place, with given bytes after them alike;
* `Read.Together`: the outcomes of a reader in both streams; `Read.Together.bind`: readers in sequence;
* `Read.Fixed`: a reader of a number of bytes, which moves behind them whatever they are;
* **`Read.Steady`**: a reader that does the same where all bytes are the same. It is closed under sequencing, so all
  readers of operands are of this kind (`Opcode.steady_operands`);
* **`FontDefinition.together_read`**: how a font definition is read depends on the number of the font and the lengths
  of its texts.
-/

namespace Dvi

/-- Two cursors in the same place, with as much behind them, and the same bytes at some distances. -/
structure Cursor.Agree (K : Nat → Prop) (c d : Cursor) : Prop where
  pos : d.pos = c.pos
  remaining : d.remaining = c.remaining
  rest : ∀ k, K k → d.rest[k]? = c.rest[k]?

namespace Cursor

theorem Agree.mono {K L : Nat → Prop} {c d : Cursor} (h : Agree K c d) (hL : ∀ k, L k → K k) : Agree L c d :=
  ⟨h.pos, h.remaining, fun k hk => h.rest k (hL k hk)⟩

/-- Two cursors agree on all that follows. -/
abbrev AgreeFully (c d : Cursor) : Prop := Agree (fun _ => True) c d

theorem Agree.passes {K : Nat → Prop} {c c' d : Cursor} (h : Agree K c d) {bs : List UInt8} (hp : c.Passes bs c')
    (hK : ∀ k < bs.length, K k) : ∃ d', d.Passes bs d' := by
  have htake : d.rest.take bs.length = bs := by
    refine List.ext_getElem? fun k => ?_
    rw [List.getElem?_take]
    split
    · rename_i hk
      rw [h.rest k (hK k hk), hp.rest, List.getElem?_append_left hk]
    · exact (List.getElem?_eq_none (by omega)).symm
  have hrest : d.rest = bs ++ d.rest.drop bs.length := by
    rw [← congrArg (· ++ d.rest.drop bs.length) htake, List.take_append_drop]
  obtain ⟨d', hd, -⟩ := exists_passes hrest
  exact ⟨d', hd⟩

theorem rest_advance (c : Cursor) (n : Nat) (hn : n ≤ c.remaining) : (c.advance n hn).rest = c.rest.drop n := by
  rw [rest, rest, List.drop_drop]
  rfl

theorem remaining_advance (c : Cursor) (n : Nat) (hn : n ≤ c.remaining) :
    (c.advance n hn).remaining = c.remaining - n := by
  simp only [remaining, advance]
  omega

theorem Agree.advance {K : Nat → Prop} {c d : Cursor} (h : Agree K c d) {n : Nat} (hc : n ≤ c.remaining)
    (hd : n ≤ d.remaining) : Agree (fun k => K (n + k)) (c.advance n hc) (d.advance n hd) := by
  refine ⟨congrArg (· + n) h.pos, ?_, fun k hk => ?_⟩
  · rw [remaining_advance, remaining_advance, h.remaining]
  · rw [rest_advance, rest_advance, List.getElem?_drop, List.getElem?_drop, h.rest _ hk]

end Cursor

namespace Read

variable {α β : Type}

/-- What comes of two readers: values and cursors that are related, or the same shortfall. -/
inductive Together (R : α → α → Prop) (S : Cursor → Cursor → Prop) :
    EStateM.Result Shortfall Cursor α → EStateM.Result Shortfall Cursor α → Prop
  | ok {a b : α} {c d : Cursor} (value : R a b) (cursor : S c d) : Together R S (.ok a c) (.ok b d)
  | error {c d : Cursor} (s : Shortfall) : Together R S (.error s c) (.error s d)

theorem Together.of_ok {R : α → α → Prop} {S : Cursor → Cursor → Prop} {x y : EStateM.Result Shortfall Cursor α}
    (h : Together R S x y) {a : α} {c : Cursor} (hx : x = .ok a c) : ∃ b d, y = .ok b d ∧ R a b ∧ S c d := by
  cases h with
  | ok value cursor =>
    cases hx
    exact ⟨_, _, rfl, value, cursor⟩
  | error => cases hx

theorem Together.of_error {R : α → α → Prop} {S : Cursor → Cursor → Prop} {x y : EStateM.Result Shortfall Cursor α}
    (h : Together R S x y) {s : Shortfall} {c : Cursor} (hx : x = .error s c) : ∃ d, y = .error s d := by
  cases h with
  | ok => cases hx
  | error =>
    cases hx
    exact ⟨_, rfl⟩

theorem Together.mono {R R' : α → α → Prop} {S S' : Cursor → Cursor → Prop}
    {x y : EStateM.Result Shortfall Cursor α} (h : Together R S x y) (hR : ∀ a b, R a b → R' a b)
    (hS : ∀ c d, S c d → S' c d) : Together R' S' x y := by
  cases h with
  | ok value cursor => exact .ok (hR _ _ value) (hS _ _ cursor)
  | error s => exact .error s

theorem Together.bind {Q : α → α → Prop} {R : β → β → Prop} {S T : Cursor → Cursor → Prop} {r r' : Read α}
    {f f' : α → Read β} {c d : Cursor} (hr : Together Q S (r c) (r' d))
    (hf : ∀ a b c d, Q a b → S c d → Together R T (f a c) (f' b d)) : Together R T ((r >>= f) c) ((r' >>= f') d) := by
  simp only [Bind.bind, EStateM.bind]
  generalize r c = x at hr ⊢
  generalize r' d = y at hr ⊢
  cases hr with
  | ok value cursor => exact hf _ _ _ _ value cursor
  | error s => exact .error s

/-! ## Fields -/

/-- The reader moves behind `n` bytes, whatever they are, and its value comes from them. -/
def Fixed (n : Nat) (r : Read α) : Prop :=
  ∀ ⦃K : Nat → Prop⦄ ⦃c d : Cursor⦄, c.Agree K d →
    Together (fun a b => (∀ k < n, K k) → b = a) (Cursor.Agree fun k => K (n + k)) (r c) (r d)

theorem fixed_take (n : Nat) : Fixed n (take n) := by
  intro K c d h
  unfold take
  by_cases hn : n ≤ c.remaining
  · have hn' : n ≤ d.remaining := h.remaining ▸ hn
    rw [dif_pos hn, dif_pos hn']
    refine .ok (fun hK => ?_) (h.advance hn hn')
    have hbytes : d.rest.take n = c.rest.take n := by
      refine List.ext_getElem? fun k => ?_
      rw [List.getElem?_take, List.getElem?_take]
      split
      · exact h.rest k (hK k ‹_›)
      · rfl
    refine ByteArray.ext (Array.toList_inj.1 ?_)
    simp only [ByteArray.data_extract, Array.toList_extract, List.extract_eq_take_drop, Nat.add_sub_cancel_left]
    exact hbytes
  · rw [dif_neg hn, dif_neg (h.remaining ▸ hn), h.pos, h.remaining]
    exact .error _

theorem Fixed.map {n : Nat} {r : Read α} (hr : Fixed n r) (f : α → β) : Fixed n (f <$> r) := by
  intro K c d h
  refine (hr h).bind fun a b c' d' hab hc => .ok (fun hK => ?_) hc
  rw [hab hK]

theorem fixed_unsigned (n : Nat) : Fixed n (unsigned n) := (fixed_take n).map _

theorem fixed_signed (n : Nat) : Fixed n (signed n) := (fixed_unsigned n).map _

theorem fixed_u8 : Fixed 1 u8 := (fixed_unsigned 1).map _

theorem fixed_u32 : Fixed 4 u32 := (fixed_unsigned 4).map _

theorem fixed_i32 : Fixed 4 i32 := (fixed_signed 4).map _

/-! ## Readers of equal bytes -/

/-- A reader that does the same wherever the bytes that follow are the same. -/
class Steady (r : Read α) : Prop where
  together : ∀ {c d : Cursor}, c.AgreeFully d → Together (fun a b => b = a) Cursor.AgreeFully (r c) (r d)

theorem Fixed.steady {n : Nat} {r : Read α} (hr : Fixed n r) : Steady r where
  together h := (hr h).mono (fun _ _ hab => hab fun _ _ => trivial) fun _ _ hc => hc

instance (a : α) : Steady (pure a : Read α) where
  together h := .ok rfl h

instance (r : Read α) (f : α → Read β) [Steady r] [∀ a, Steady (f a)] : Steady (r >>= f) where
  together h := (Steady.together h).bind fun a b c' d' hab hc => by
    rw [hab]
    exact Steady.together hc

instance (r : Read α) (f : α → β) [Steady r] : Steady (f <$> r) :=
  inferInstanceAs (Steady (r >>= fun a => pure (f a)))

instance (n : Nat) : Steady (take n) := (fixed_take n).steady
instance (n : Nat) : Steady (unsigned n) := (fixed_unsigned n).steady
instance (n : Nat) : Steady (signed n) := (fixed_signed n).steady
instance : Steady u8 := fixed_u8.steady
instance : Steady u16 := inferInstanceAs (Steady (_ >>= _))
instance : Steady u32 := fixed_u32.steady
instance : Steady i32 := fixed_i32.steady

instance steadyReplicate (r : Read α) [Steady r] : ∀ n, Steady (replicate r n)
  | 0 => inferInstanceAs (Steady (pure _))
  | n + 1 => by
    have := steadyReplicate r n
    exact inferInstanceAs (Steady (_ >>= _))

end Read

/-! ## Operands -/

open Read

theorem Width.fixed_unsigned (w : Width) : Fixed w.bytes w.unsigned := (Read.fixed_unsigned _).map _

instance (w : Width) : Steady w.unsigned := w.fixed_unsigned.steady
instance (w : Width) : Steady w.signed := inferInstanceAs (Steady (_ >>= _))
instance (w : Width) (offset : Nat) : Steady (FontDefinition.read w offset) := inferInstanceAs (Steady (_ >>= _))
instance : Steady Preamble.read := inferInstanceAs (Steady (_ >>= _))
instance (offset : Nat) : Steady (Postamble.read offset) := inferInstanceAs (Steady (_ >>= _))
instance (p : Placement) : Steady (Command.readRule p) := inferInstanceAs (Steady (_ >>= _))
instance : Steady Command.readBeginPage := inferInstanceAs (Steady (_ >>= _))
instance (w : Width) : Steady (Command.readSpecial w) := inferInstanceAs (Steady (_ >>= _))
instance : Steady Command.readPostPostamble := inferInstanceAs (Steady (_ >>= _))

instance Opcode.steady_operands (offset : Nat) : ∀ o : Opcode, Steady (o.operands offset)
  | .set w | .put w | .font w => inferInstanceAs (Steady (_ <$> w.unsigned))
  | .right w | .down w | .move _ (some w) => inferInstanceAs (Steady (_ <$> w.signed))
  | .setRule | .putRule => inferInstanceAs (Steady (Command.readRule _))
  | .beginPage => inferInstanceAs (Steady Command.readBeginPage)
  | .special w => inferInstanceAs (Steady (Command.readSpecial w))
  | .fontDef w => inferInstanceAs (Steady (_ <$> FontDefinition.read w offset))
  | .preamble => inferInstanceAs (Steady (_ <$> Preamble.read))
  | .postamble => inferInstanceAs (Steady (_ <$> Postamble.read offset))
  | .postPostamble => inferInstanceAs (Steady Command.readPostPostamble)
  | .setChar _ | .nop | .endPage | .push | .pop | .move _ none | .fontNum _ | .undefined _ =>
    inferInstanceAs (Steady (pure _))

/-- The operand bytes of a font definition that tell how long it is and which font it is about: its number, and the
lengths of its two texts, which stand behind three words. -/
def FontDefinition.IsOutline (w : Width) (k : Nat) : Prop := k < w.bytes ∨ k = w.bytes + 12 ∨ k = w.bytes + 13

/-- **Two font definitions that agree in their outline are read in the same way**, and are about the same font. -/
theorem FontDefinition.together_read (w : Width) (offset : Nat) {c d : Cursor} (h : c.Agree (IsOutline w) d) :
    Together (fun f g => g.id = f.id) (fun c' d' => d'.pos = c'.pos) (FontDefinition.read w offset c)
      (FontDefinition.read w offset d) := by
  unfold FontDefinition.read
  refine (w.fixed_unsigned h).bind fun id id' c₁ d₁ hid h₁ => ?_
  refine (fixed_u32 h₁).bind fun _ _ c₂ d₂ _ h₂ => ?_
  refine (fixed_i32 h₂).bind fun _ _ c₃ d₃ _ h₃ => ?_
  refine (fixed_i32 h₃).bind fun _ _ c₄ d₄ _ h₄ => ?_
  refine (fixed_u8 h₄).bind fun area area' c₅ d₅ harea h₅ => ?_
  refine (fixed_u8 h₅).bind fun name name' c₆ d₆ hname h₆ => ?_
  obtain rfl : area' = area := harea fun k hk => .inr (.inl (by omega))
  obtain rfl : name' = name := hname fun k hk => .inr (.inr (by omega))
  refine (fixed_take _ h₆).bind fun _ _ c₇ d₇ _ h₇ => ?_
  refine (fixed_take _ h₇).bind fun _ _ c₈ d₈ _ h₈ => ?_
  exact .ok (hid fun k hk => .inl hk) h₈.pos

end Dvi
