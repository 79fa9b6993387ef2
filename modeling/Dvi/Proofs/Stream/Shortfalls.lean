import Dvi.Stream.Command

/-!
# Reads that fall short

A reader of operands is a sequence of reads of bytes. If it fails, one of these has wanted more bytes than there
were, and the cursor stays where that read has found it.

* `Read.FallsShort`: a reader fails in a read of bytes, after others that have succeeded;
  **`Read.FallsShort.shortfall_eq`**: the shortfall is true of the place where that happened;
* **`Read.Stepwise`**: a reader that fails in no other way. It is closed under sequencing, so all readers of operands
  are of this kind (`Opcode.stepwise_operands`).
-/

namespace Dvi

namespace Read

/-- The reader, at `c`, fails in a read of bytes at `c'`; the reads before have succeeded. -/
inductive FallsShort : {α : Type} → Read α → Cursor → Shortfall → Cursor → Prop
  | take {n : Nat} {c : Cursor} (h : c.remaining < n) : FallsShort (take n) c ⟨c.pos, n, c.remaining⟩ c
  | first {α β : Type} {r : Read α} {f : α → Read β} {s : Shortfall} {c c' : Cursor} (h : FallsShort r c s c') :
    FallsShort (r >>= f) c s c'
  | later {α β : Type} {r : Read α} {f : α → Read β} {a : α} {s : Shortfall} {c c₁ c' : Cursor}
    (hr : r c = .ok a c₁) (h : FallsShort (f a) c₁ s c') : FallsShort (r >>= f) c s c'

variable {α β : Type}

/-- **The shortfall is true of the place of the read**: more was wanted there than there was. -/
theorem FallsShort.shortfall_eq {r : Read α} {s : Shortfall} {c c' : Cursor} (h : r.FallsShort c s c') :
    s.offset = c'.pos ∧ s.remaining = c'.remaining ∧ s.remaining < s.wanted := by
  induction h with
  | take h => exact ⟨rfl, rfl, h⟩
  | first _ ih => exact ih
  | later _ _ ih => exact ih

theorem take_eq_error {n : Nat} {c c' : Cursor} {s : Shortfall} (h : take n c = .error s c') :
    c' = c ∧ s = ⟨c.pos, n, c.remaining⟩ ∧ c.remaining < n := by
  unfold take at h
  split at h
  · cases h
  · rename_i hn
    cases h
    exact ⟨rfl, rfl, Nat.lt_of_not_le hn⟩

theorem bind_eq_error_iff {r : Read α} {f : α → Read β} {c c' : Cursor} {s : Shortfall} :
    (r >>= f) c = .error s c' ↔ r c = .error s c' ∨ ∃ a c₁, r c = .ok a c₁ ∧ f a c₁ = .error s c' := by
  simp only [Bind.bind, EStateM.bind]
  cases r c with
  | error s₁ c₁ => simp
  | ok a c₁ =>
    refine ⟨fun h => .inr ⟨a, c₁, rfl, h⟩, ?_⟩
    rintro (h | ⟨_, _, h, h'⟩) <;> cases h
    exact h'

/-- A reader that fails in no other way than in a read of bytes. -/
class Stepwise (r : Read α) : Prop where
  fallsShort : ∀ {c c' : Cursor} {s : Shortfall}, r c = .error s c' → r.FallsShort c s c'

instance (a : α) : Stepwise (pure a : Read α) where
  fallsShort h := by cases h

instance (n : Nat) : Stepwise (take n) where
  fallsShort h := by
    obtain ⟨rfl, rfl, hn⟩ := take_eq_error h
    exact .take hn

instance (r : Read α) (f : α → Read β) [Stepwise r] [∀ a, Stepwise (f a)] : Stepwise (r >>= f) where
  fallsShort h := by
    obtain hr | ⟨a, c₁, hr, hf⟩ := bind_eq_error_iff.1 h
    · exact .first (Stepwise.fallsShort hr)
    · exact .later hr (Stepwise.fallsShort hf)

instance (r : Read α) (f : α → β) [Stepwise r] : Stepwise (f <$> r) :=
  inferInstanceAs (Stepwise (r >>= fun a => pure (f a)))

instance (n : Nat) : Stepwise (unsigned n) := inferInstanceAs (Stepwise (_ >>= _))
instance (n : Nat) : Stepwise (signed n) := inferInstanceAs (Stepwise (_ >>= _))
instance : Stepwise u8 := inferInstanceAs (Stepwise (_ >>= _))
instance : Stepwise u16 := inferInstanceAs (Stepwise (_ >>= _))
instance : Stepwise u32 := inferInstanceAs (Stepwise (_ >>= _))
instance : Stepwise i32 := inferInstanceAs (Stepwise (_ >>= _))

instance stepwiseReplicate (r : Read α) [Stepwise r] : ∀ n, Stepwise (replicate r n)
  | 0 => inferInstanceAs (Stepwise (pure _))
  | n + 1 => by
    have := stepwiseReplicate r n
    exact inferInstanceAs (Stepwise (_ >>= _))

theorem u8_eq_error {c c' : Cursor} {s : Shortfall} (h : u8 c = .error s c') :
    c' = c ∧ s = ⟨c.data.size, 1, 0⟩ ∧ c.pos = c.data.size := by
  obtain h | ⟨_, _, _, h⟩ := bind_eq_error_iff.1 h
  · obtain h | ⟨_, _, _, h⟩ := bind_eq_error_iff.1 h
    · obtain ⟨rfl, rfl, hn⟩ := take_eq_error h
      have hpos := c'.pos_add_remaining
      have hrest : c'.remaining = 0 := by omega
      have hend : c'.pos = c'.data.size := by omega
      exact ⟨rfl, by rw [hend, hrest], hend⟩
    · cases h
  · cases h

end Read

/-! ## Operands -/

open Read

instance (w : Width) : Stepwise w.unsigned := inferInstanceAs (Stepwise (_ >>= _))
instance (w : Width) : Stepwise w.signed := inferInstanceAs (Stepwise (_ >>= _))
instance (w : Width) (offset : Nat) : Stepwise (FontDefinition.read w offset) := inferInstanceAs (Stepwise (_ >>= _))
instance : Stepwise Preamble.read := inferInstanceAs (Stepwise (_ >>= _))
instance (offset : Nat) : Stepwise (Postamble.read offset) := inferInstanceAs (Stepwise (_ >>= _))
instance (p : Placement) : Stepwise (Command.readRule p) := inferInstanceAs (Stepwise (_ >>= _))
instance : Stepwise Command.readBeginPage := inferInstanceAs (Stepwise (_ >>= _))
instance (w : Width) : Stepwise (Command.readSpecial w) := inferInstanceAs (Stepwise (_ >>= _))
instance : Stepwise Command.readPostPostamble := inferInstanceAs (Stepwise (_ >>= _))

instance Opcode.stepwise_operands (offset : Nat) : ∀ o : Opcode, Stepwise (o.operands offset)
  | .set w | .put w | .font w => inferInstanceAs (Stepwise (_ <$> w.unsigned))
  | .right w | .down w | .move _ (some w) => inferInstanceAs (Stepwise (_ <$> w.signed))
  | .setRule | .putRule => inferInstanceAs (Stepwise (Command.readRule _))
  | .beginPage => inferInstanceAs (Stepwise Command.readBeginPage)
  | .special w => inferInstanceAs (Stepwise (Command.readSpecial w))
  | .fontDef w => inferInstanceAs (Stepwise (_ <$> FontDefinition.read w offset))
  | .preamble => inferInstanceAs (Stepwise (_ <$> Preamble.read))
  | .postamble => inferInstanceAs (Stepwise (_ <$> Postamble.read offset))
  | .postPostamble => inferInstanceAs (Stepwise Command.readPostPostamble)
  | .setChar _ | .nop | .endPage | .push | .pop | .move _ none | .fontNum _ | .undefined _ =>
    inferInstanceAs (Stepwise (pure _))

end Dvi
