import Dvi.Trailer

/-!
# Scans leave the bytes alone

* `Scan.KeepsData`: a scan moves the cursor over the same bytes, whether it succeeds or fails;
* `Scan.Absolute`: a scan that finds the same wherever it starts;
* **`Trailer.keepsData_locate`**, **`Trailer.absolute_locate`**: finding the end of a stream is of both kinds.
-/

namespace Dvi

namespace Scan

variable {α β : Type}

/-- The cursor that a scan leaves behind, whatever its outcome. -/
def after (s : Scan α) (c : Cursor) : Cursor :=
  match s c with
  | .ok _ c' => c'
  | .error _ c' => c'

/-- A scan never changes the bytes. -/
def KeepsData (s : Scan α) : Prop := ∀ c, (s.after c).data = c.data

theorem keepsData_pure (a : α) : KeepsData (pure a : Scan α) := fun _ => rfl

theorem keepsData_get : KeepsData (get : Scan Cursor) := fun _ => rfl

theorem keepsData_seek (pos : Nat) : KeepsData (seek pos) := by
  intro c
  unfold after seek Cursor.seek
  split <;> rename_i h <;> split at h <;> rename_i h' <;> split at h' <;> cases h' <;> cases h
  · rfl
  · rfl

theorem keepsData_reading (opcode : Option UInt8) {r : Read α} (hr : r.Forward) :
    KeepsData (reading opcode r) := by
  intro c
  have h := (hr c).1
  unfold Read.after at h
  unfold after reading
  rcases hc : r c with ⟨a, c'⟩ | ⟨e, c'⟩
  · rw [hc] at h
    exact h
  · rw [hc] at h
    exact h

theorem KeepsData.bind {s : Scan α} {f : α → Scan β} (hs : KeepsData s) (hf : ∀ a, KeepsData (f a)) :
    KeepsData (s >>= f) := by
  intro c
  have h := hs c
  unfold after at h ⊢
  change (match EStateM.bind s f c with
    | .ok _ c' => c'
    | .error _ c' => c').data = c.data
  unfold EStateM.bind
  rcases hc : s c with ⟨a, c'⟩ | ⟨e, c'⟩
  · rw [hc] at h
    exact (hf a c').trans h
  · rw [hc] at h
    exact h

theorem KeepsData.unless {p : Prop} [Decidable p] {e : Error} {f : Unit → Scan α} (hf : KeepsData (f ())) :
    KeepsData (if p then throw e >>= f else f ()) := by
  split
  · exact fun _ => rfl
  · exact hf

/-- What a scan finds depends on the bytes only, not on where it starts. -/
def Absolute (s : Scan α) : Prop := ∀ ⦃c c' : Cursor⦄, c'.data = c.data → s.result c' = s.result c

theorem absolute_get {f : Cursor → Scan α} (hdata : ∀ c c' : Cursor, c'.data = c.data → f c' = f c)
    (hf : ∀ c, Absolute (f c)) : Absolute (get >>= f) := by
  intro c c' h
  change (f c').result c' = (f c).result c
  rw [hdata c c' h]
  exact hf c h

theorem absolute_seek (pos : Nat) (f : Unit → Scan α) : Absolute (seek pos >>= f) := by
  intro c c' h
  have hseek : c'.seek pos = c.seek pos := by simp only [Cursor.seek, h]
  change (match EStateM.bind (seek pos) f c' with
    | .ok a _ => Except.ok a
    | .error e _ => .error e) = (match EStateM.bind (seek pos) f c with
    | .ok a _ => Except.ok a
    | .error e _ => .error e)
  unfold EStateM.bind seek
  rw [hseek, h]
  cases c.seek pos <;> rfl

theorem Absolute.unless {p : Prop} [Decidable p] {e : Error} {f : Unit → Scan α} (hf : Absolute (f ())) :
    Absolute (if p then throw e >>= f else f ()) := by
  split
  · exact fun _ _ _ => rfl
  · exact hf

end Scan

namespace Trailer

theorem keepsData_readFonts : Scan.KeepsData readFonts := by
  intro c
  have byte : ∀ {c b c'}, Read.u8 c = .ok b c' → c'.data = c.data := by
    intro c b c' h
    have := (Read.forward_u8 c).1
    rwa [Read.after, h] at this
  unfold Scan.after
  fun_induction readFonts c with
  | case1 c s c₁ h =>
    have := (Read.forward_u8 c).1
    rwa [Read.after, h] at this
  | case2 c b c₁ h w ho s c₂ h' =>
    have := (FontDefinition.forward_read w c.pos c₁).1
    rw [Read.after, h'] at this
    exact this.trans (byte h)
  | case3 c b c₁ h w ho d c₂ h' ds c₃ hr ih =>
    have := (FontDefinition.forward_read w c.pos c₁).1
    rw [Read.after, h'] at this
    rw [hr] at ih
    exact ih.trans (this.trans (byte h))
  | case4 c b c₁ h w ho d c₂ h' e c₃ hr ih =>
    have := (FontDefinition.forward_read w c.pos c₁).1
    rw [Read.after, h'] at this
    rw [hr] at ih
    exact ih.trans (this.trans (byte h))
  | case5 c b c₁ h ho ih => exact ih.trans (byte h)
  | case6 c b c₁ h ho => exact byte h
  | case7 c b c₁ h ho => exact byte h

/-- **Finding the end of a stream leaves the bytes alone.** -/
theorem keepsData_locate : Scan.KeepsData locate := by
  unfold locate
  refine .bind Scan.keepsData_get fun c => .unless (.unless ?_)
  refine .bind (Scan.keepsData_seek _) fun _ => .bind (Scan.keepsData_reading _ Read.forward_i32) fun pointer => ?_
  refine .bind (Scan.keepsData_reading _ Read.forward_u8) fun id => .unless ?_
  refine .bind (Scan.keepsData_seek _) fun _ => .bind (Scan.keepsData_reading _ Read.forward_u8) fun opcode => ?_
  refine .unless (.bind (Scan.keepsData_reading _ (Postamble.forward_read _)) fun postamble => ?_)
  exact .bind keepsData_readFonts fun fonts => Scan.keepsData_pure _

/-- **The end of a stream is found from anywhere.** -/
theorem absolute_locate : Scan.Absolute locate := by
  unfold locate
  refine Scan.absolute_get (fun c c' h => by simp only [h]) fun c => ?_
  exact .unless (.unless (Scan.absolute_seek _ _))

end Trailer

end Dvi
