import Dvi.Proofs.Stream.Together
import Dvi.Proofs.Stream.Tokens

/-!
# Fonts that are defined again

The bytes of a stream in which it says something of a font that it has defined before.

* `Token.eq_of_append`, **`Token.prefix_or_prefix`**: no token begins another one, so bytes can be taken apart into
  tokens in one way only;
* `RestatedAt`: the places of the check sums, the sizes and the texts in definitions of fonts defined before.
  **`RestatedAt.cases`**: such a place is in the next command or behind it;
* `DifferInRedefinitions`: two streams that differ in such places only.
  **`Redefined.differInRedefinitions`**: so do streams of tokens in which fonts are defined again in other words;
* `Cursor.Beside`: the same place of two such streams, between two tokens. **`Cursor.Beside.command?`**: the next
  command is the same, or defines the same font once more; **`Cursor.Beside.operands_error`**: operands fall short in
  both streams in the same way.
-/

namespace Dvi

/-! ## Taking bytes apart -/

namespace Token

theorem eq_of_bytes {t u : Token} (h : t.bytes = u.bytes) : t = u := by
  obtain ⟨hbyte, hoperands⟩ := List.cons.inj h
  have hopcode : t.opcode = u.opcode := by rw [← Opcode.ofByte_toByte t.opcode, hbyte, Opcode.ofByte_toByte]
  obtain ⟨o, bs, ht⟩ := t
  obtain ⟨o', bs', hu⟩ := u
  obtain rfl : o = o' := hopcode
  obtain rfl : bs = bs' := hoperands
  rfl

theorem exists_command? (t : Token) {c c' : Cursor} (hp : c.Passes t.bytes c') : ∃ command,
    c.command? = some (⟨c.pos, t.opcode.toByte⟩, command, c') ∧ (t.opcode.operands c.pos).Takes t.operands command := by
  obtain ⟨command, ht⟩ : ∃ command, (t.opcode.operands c.pos).Takes t.operands command :=
    Opcode.exists_takes_iff.2 t.prescribed
  exact ⟨command, Cursor.command?_iff_token.2 ⟨t, rfl, hp, ht⟩, ht⟩

/-- No token begins another one. -/
theorem eq_of_append {t u : Token} {xs ys : List UInt8} (h : t.bytes ++ xs = u.bytes ++ ys) : t = u := by
  have hrest : (Cursor.start ⟨(t.bytes ++ xs).toArray⟩).rest = t.bytes ++ xs := by simp [Cursor.rest, Cursor.start]
  obtain ⟨c₁, ht, -⟩ := Cursor.exists_passes hrest
  obtain ⟨c₂, hu, -⟩ := Cursor.exists_passes (hrest.trans h)
  obtain ⟨_, hread, -⟩ := t.exists_command? ht
  obtain ⟨_, hread', -⟩ := u.exists_command? hu
  rw [hread] at hread'
  obtain rfl : c₁ = c₂ := by simpa using congrArg (Option.map (·.2.2)) hread'
  exact eq_of_bytes (ht.bytes_unique hu)

/-- **Of two sequences of tokens with which the same bytes begin, one begins with the other.** -/
theorem prefix_or_prefix {ts us : List Token} {xs ys : List UInt8}
    (h : ts.flatMap bytes ++ xs = us.flatMap bytes ++ ys) : ts <+: us ∨ us <+: ts := by
  induction ts generalizing us with
  | nil => exact .inl List.nil_prefix
  | cons t ts ih =>
    cases us with
    | nil => exact .inr List.nil_prefix
    | cons u us =>
      simp only [List.flatMap_cons, List.append_assoc] at h
      obtain rfl := eq_of_append h
      exact (ih (List.append_cancel_left h)).imp (fun h => List.cons_prefix_cons.2 ⟨rfl, h⟩)
        fun h => List.cons_prefix_cons.2 ⟨rfl, h⟩

end Token

/-! ## What is said again of a font -/

/-- The operand bytes of a font definition that are not of its outline: the check sum and the sizes, and the texts as
far as their lengths go. -/
structure FontDefinition.IsContent (w : Width) (operands : List UInt8) (k : Nat) : Prop where
  not_outline : ¬ IsOutline w k
  within : k < w.bytes + 12 ∨ ∃ area name, operands[w.bytes + 12]? = some area ∧
    operands[w.bytes + 13]? = some name ∧ k < w.bytes + 14 + area.toNat + name.toNat

/-- A font definition may begin here after the tokens `ts`, for a font that one of them has defined. -/
structure Redefines (ts : List Token) (bytes : List UInt8) (w : Width) (operands : List UInt8) : Prop where
  bytes_eq : bytes = (Opcode.fontDef w).toByte :: operands
  defined : ∃ t ∈ ts, t.defines? = some (UInt32.ofNat (bigEndian (operands.take w.bytes)))

/-- The place of a byte of the check sum, the sizes or the texts in a definition of a font that was defined before. -/
inductive RestatedAt (bytes : List UInt8) : Nat → Prop
  | intro {ts : List Token} {rest operands : List UInt8} {w : Width} {k : Nat}
    (bytes_eq : bytes = ts.flatMap Token.bytes ++ rest) (redefines : Redefines ts rest w operands)
    (content : FontDefinition.IsContent w operands k) : RestatedAt bytes ((ts.flatMap Token.bytes).length + 1 + k)

/-- Two byte strings of one length that differ in nothing but what they say of fonts defined before. -/
structure DifferInRedefinitions (bytes bytes' : List UInt8) : Prop where
  length_eq : bytes'.length = bytes.length
  same : ∀ n, ¬ RestatedAt bytes n → bytes'[n]? = bytes[n]?

namespace Token

theorem length_operands_of_fontDef {t : Token} {w : Width} (ho : t.opcode = .fontDef w) : ∃ area name : UInt8,
    t.operands[w.bytes + 12]? = some area ∧ t.operands[w.bytes + 13]? = some name ∧
      t.operands.length = w.bytes + 14 + area.toNat + name.toNat := by
  have hprescribed := t.prescribed
  rw [ho] at hprescribed
  obtain ⟨id, fields, area, name, texts, heq, hid, hfields, htexts⟩ := hprescribed
  have hfront : (id ++ fields).length = w.bytes + 12 := by rw [List.length_append, hid, hfields]
  rw [heq, List.append_assoc]
  refine ⟨area, name, ?_, ?_, ?_⟩
  · rw [List.getElem?_append_right (by omega)]
    simp [hfront]
  · rw [List.getElem?_append_right (by omega)]
    simp [hfront]
  · simp only [List.length_append, List.length_cons, List.length_nil] at hfront ⊢
    omega

theorem lt_length_of_isContent {t : Token} {w : Width} (ho : t.opcode = .fontDef w) {more : List UInt8} {k : Nat}
    (h : FontDefinition.IsContent w (t.operands ++ more) k) : k < t.operands.length := by
  obtain ⟨area, name, harea, hname, hlength⟩ := t.length_operands_of_fontDef ho
  obtain hk | ⟨area', name', harea', hname', hk⟩ := h.within
  · omega
  · rw [List.getElem?_append_left (by omega), harea] at harea'
    rw [List.getElem?_append_left (by omega), hname] at hname'
    cases harea'
    cases hname'
    omega

theorem of_append_eq_cons {t : Token} {w : Width} {xs operands : List UInt8}
    (h : t.bytes ++ xs = (Opcode.fontDef w).toByte :: operands) :
    t.opcode = .fontDef w ∧ operands = t.operands ++ xs := by
  obtain ⟨hbyte, hoperands⟩ := List.cons.inj h
  refine ⟨?_, hoperands.symm⟩
  rw [← Opcode.ofByte_toByte t.opcode, hbyte, Opcode.ofByte_toByte]

end Token

/-- **What is said again behind some tokens is said in the next command, or behind it.** -/
theorem RestatedAt.cases {bytes rest : List UInt8} {ts : List Token} {n : Nat} (h : RestatedAt bytes n)
    (hbytes : bytes = ts.flatMap Token.bytes ++ rest) (hn : (ts.flatMap Token.bytes).length ≤ n) :
    (∃ w operands k, Redefines ts rest w operands ∧ FontDefinition.IsContent w operands k ∧
      n = (ts.flatMap Token.bytes).length + 1 + k) ∨
    ∃ t more, rest = Token.bytes t ++ more ∧ (ts.flatMap Token.bytes).length + t.bytes.length ≤ n := by
  obtain ⟨hbytes', hre, hcontent⟩ := h
  rename_i us rest' operands w k
  have heq := hbytes.symm.trans hbytes'
  obtain ⟨vs, rfl⟩ | ⟨vs, rfl⟩ := Token.prefix_or_prefix heq
  · rw [List.flatMap_append, List.append_assoc] at heq
    obtain rfl := List.append_cancel_left heq
    cases vs with
    | nil => exact .inl ⟨w, operands, k, by simpa using hre, hcontent, by simp⟩
    | cons v vs =>
      refine .inr ⟨v, vs.flatMap Token.bytes ++ rest', by simp, ?_⟩
      simp only [List.flatMap_append, List.flatMap_cons, List.length_append]
      omega
  · rw [List.flatMap_append, List.append_assoc] at heq
    have hrest := List.append_cancel_left heq
    cases vs with
    | nil =>
      obtain rfl : rest = rest' := hrest
      exact .inl ⟨w, operands, k, by simpa using hre, hcontent, by simp⟩
    | cons v vs =>
      -- the definition is one of the tokens, and what it says lies within it
      rw [hre.bytes_eq, List.flatMap_cons, List.append_assoc] at hrest
      obtain ⟨ho, rfl⟩ := Token.of_append_eq_cons hrest
      have hk := Token.lt_length_of_isContent ho hcontent
      simp only [List.flatMap_append, List.flatMap_cons, List.length_append, Token.bytes, List.length_cons] at hn
      omega

/-! ## Definitions in place of others -/

/-- Tokens that follow others, and the same ones with other definitions of fonts that were defined before: of the same
number and with texts of the same lengths. -/
inductive Redefined : List Token → List Token → List Token → Prop
  | nil (ts : List Token) : Redefined ts [] []
  | same {t : Token} {ts us us' : List Token} (more : Redefined (ts ++ [t]) us us') :
    Redefined ts (t :: us) (t :: us')
  | again {t t' : Token} {ts us us' : List Token} {w : Width} (opcode : t.opcode = .fontDef w)
    (opcode' : t'.opcode = .fontDef w)
    (outline : ∀ k, FontDefinition.IsOutline w k → t'.operands[k]? = t.operands[k]?)
    (defined : ∃ u ∈ ts, u.defines? = t.defines?) (more : Redefined (ts ++ [t]) us us') :
    Redefined ts (t :: us) (t' :: us')

namespace Redefined

variable {ts us us' : List Token}

theorem length_operands_eq {t t' : Token} {w : Width} (opcode : t.opcode = .fontDef w)
    (opcode' : t'.opcode = .fontDef w)
    (outline : ∀ k, FontDefinition.IsOutline w k → t'.operands[k]? = t.operands[k]?) :
    t'.operands.length = t.operands.length := by
  obtain ⟨area, name, harea, hname, hlength⟩ := t.length_operands_of_fontDef opcode
  obtain ⟨area', name', harea', hname', hlength'⟩ := t'.length_operands_of_fontDef opcode'
  rw [outline _ (.inr (.inl rfl)), harea] at harea'
  rw [outline _ (.inr (.inr rfl)), hname] at hname'
  cases harea'
  cases hname'
  rw [hlength, hlength']

/-- The bytes of the tokens are the same but for what is said again. -/
structure BytesAgree (ts us us' : List Token) (rest : List UInt8) : Prop where
  length_eq : (us'.flatMap Token.bytes).length = (us.flatMap Token.bytes).length
  same : ∀ n, ¬ RestatedAt (ts.flatMap Token.bytes ++ (us.flatMap Token.bytes ++ rest))
      ((ts.flatMap Token.bytes).length + n) →
    (us'.flatMap Token.bytes ++ rest)[n]? = (us.flatMap Token.bytes ++ rest)[n]?

theorem BytesAgree.cons {rest : List UInt8} {t t' : Token} (h : BytesAgree (ts ++ [t]) us us' rest)
    (hlength : t'.bytes.length = t.bytes.length)
    (ht : ∀ n < t.bytes.length, ¬ RestatedAt (ts.flatMap Token.bytes ++ ((t :: us).flatMap Token.bytes ++ rest))
      ((ts.flatMap Token.bytes).length + n) → t'.bytes[n]? = t.bytes[n]?) :
    BytesAgree ts (t :: us) (t' :: us') rest := by
  refine ⟨?_, fun n hn => ?_⟩
  · rw [List.flatMap_cons, List.flatMap_cons, List.length_append, List.length_append, hlength, h.length_eq]
  · by_cases hlt : n < t.bytes.length
    · have hfirst := ht n hlt hn
      simp only [List.flatMap_cons, List.append_assoc]
      rw [List.getElem?_append_left hlt, List.getElem?_append_left (by omega), hfirst]
    · obtain ⟨m, rfl⟩ : ∃ m, n = t.bytes.length + m := ⟨n - t.bytes.length, by omega⟩
      have hmore := h.same m (by simpa [Nat.add_assoc] using hn)
      have hright : ∀ (u : Token) bytes, (u.bytes ++ bytes)[u.bytes.length + m]? = bytes[m]? := fun u bytes => by
        rw [List.getElem?_append_right (Nat.le_add_right _ _), Nat.add_sub_cancel_left]
      simp only [List.flatMap_cons, List.append_assoc]
      rw [hright t, ← hlength, hright t', hmore]

theorem bytesAgree (h : Redefined ts us us') (rest : List UInt8) : BytesAgree ts us us' rest := by
  induction h with
  | nil => exact ⟨rfl, fun _ _ => rfl⟩
  | same _ ih => exact ih.cons rfl fun _ _ _ => rfl
  | @again t t' ts us us' w opcode opcode' outline defined _ ih =>
    have hlength := length_operands_eq opcode opcode' outline
    refine ih.cons (by simp [Token.bytes, hlength]) fun n hn hsame => ?_
    cases n with
    | zero => simp [Token.bytes, opcode, opcode']
    | succ k =>
      simp only [Token.bytes, List.getElem?_cons_succ]
      by_cases hk : FontDefinition.IsOutline w k
      · exact outline k hk
      -- all other operand bytes are content, and the font was defined before
      have hlt : k < t.operands.length := by simpa [Token.bytes] using hn
      obtain ⟨area, name, harea, hname, hoperands⟩ := t.length_operands_of_fontDef opcode
      have hdefines : t.defines? = some (UInt32.ofNat (bigEndian (t.operands.take w.bytes))) := by
        rw [Token.defines?, opcode]
      have hredefines : Redefines ts ((t :: us).flatMap Token.bytes ++ rest) w
          (t.operands ++ (us.flatMap Token.bytes ++ rest)) := by
        refine ⟨by simp [Token.bytes, opcode], ?_⟩
        rwa [List.take_append_of_le_length (by omega), ← hdefines]
      have hcontent : FontDefinition.IsContent w (t.operands ++ (us.flatMap Token.bytes ++ rest)) k := by
        refine ⟨hk, .inr ⟨area, name, ?_, ?_, by omega⟩⟩
        · rw [List.getElem?_append_left (by omega), harea]
        · rw [List.getElem?_append_left (by omega), hname]
      rw [Nat.add_comm k, ← Nat.add_assoc] at hsame
      exact absurd (.intro rfl hredefines hcontent) hsame

/-- **Streams of tokens in which fonts are defined again in other words differ in redefinitions.** -/
theorem differInRedefinitions (h : Redefined [] us us') (rest : List UInt8) :
    DifferInRedefinitions (us.flatMap Token.bytes ++ rest) (us'.flatMap Token.bytes ++ rest) := by
  obtain ⟨hlength, hsame⟩ := h.bytesAgree rest
  refine ⟨by rw [List.length_append, List.length_append, hlength], fun n hn => hsame n ?_⟩
  simpa using hn

end Redefined

/-! ## The same place of two streams -/

open Read

theorem Redefines.unique {ts : List Token} {bytes operands operands' : List UInt8} {w w' : Width}
    (h : Redefines ts bytes w operands) (h' : Redefines ts bytes w' operands') : w' = w ∧ operands' = operands := by
  obtain ⟨hbyte, hoperands⟩ := List.cons.inj (h'.bytes_eq.symm.trans h.bytes_eq)
  have ho : Opcode.fontDef w' = .fontDef w := by rw [← Opcode.ofByte_toByte (.fontDef w'), hbyte, Opcode.ofByte_toByte]
  exact ⟨Opcode.fontDef.inj ho, hoperands⟩

/-- A command, and the same command or another definition of a font that the tokens `ts` have defined. -/
inductive Command.SameOrRedefines (ts : List Token) : Command → Command → Prop
  | same (command : Command) : SameOrRedefines ts command command
  | again {f g : FontDefinition} (id_eq : g.id = f.id) (defined : ∃ t ∈ ts, t.defines? = some f.id) :
    SameOrRedefines ts (.defineFont f) (.defineFont g)

namespace Cursor

/-- Two cursors in the same place of two streams that differ in redefinitions, behind the same number of tokens, which
are `ts` in the first stream. -/
structure Beside (ts : List Token) (c d : Cursor) : Prop where
  differ : DifferInRedefinitions c.data.data.toList d.data.data.toList
  pos : d.pos = c.pos
  read : c.data.data.toList = ts.flatMap Token.bytes ++ c.rest

namespace Beside

theorem start {data data' : ByteArray} (h : DifferInRedefinitions data.data.toList data'.data.toList) :
    (Cursor.start data).Beside [] (.start data') :=
  ⟨h, rfl, rfl⟩

variable {ts : List Token} {c d : Cursor} (h : c.Beside ts d)
include h

theorem pos_eq : c.pos = (ts.flatMap Token.bytes).length := by
  have hlength := congrArg List.length h.read
  rw [List.length_append, length_rest, Array.length_toList] at hlength
  have hpos := c.pos_add_remaining
  change c.pos + c.remaining = c.data.data.size at hpos
  omega

theorem agree {K : Nat → Prop}
    (hK : ∀ k, K k → ¬ RestatedAt c.data.data.toList ((ts.flatMap Token.bytes).length + k)) : c.Agree K d := by
  refine ⟨h.pos, ?_, fun k hk => ?_⟩
  · have hsize := h.differ.length_eq
    rw [Array.length_toList, Array.length_toList] at hsize
    change d.data.data.size - d.pos = c.data.data.size - c.pos
    rw [hsize, h.pos]
  · rw [rest, rest, List.getElem?_drop, List.getElem?_drop, h.pos, h.pos_eq]
    exact h.differ.same _ (hK k hk)

/-- Where a font is defined again, the streams agree in the opcode and in the outline of the definition. -/
theorem agree_of_redefines {w : Width} {operands : List UInt8} (hre : Redefines ts c.rest w operands) :
    c.Agree (fun k => ∀ i, k = i + 1 → FontDefinition.IsOutline w i) d := by
  refine h.agree fun k hk hrestated => ?_
  obtain ⟨w', operands', i, hre', hcontent, hi⟩ | ⟨t, more, hrest, hn⟩ := hrestated.cases h.read (Nat.le_add_right _ _)
  · obtain ⟨rfl, rfl⟩ := hre.unique hre'
    exact hcontent.not_outline (hk i (by omega))
  · obtain ⟨ho, -⟩ := Token.of_append_eq_cons (hrest.symm.trans hre.bytes_eq)
    obtain ⟨area, name, -, -, hlength⟩ := t.length_operands_of_fontDef ho
    rw [Token.bytes, List.length_cons] at hn
    obtain ⟨i, rfl⟩ : ∃ i, k = i + 1 := ⟨k - 1, by omega⟩
    have hi : i < w.bytes ∨ i = w.bytes + 12 ∨ i = w.bytes + 13 := hk i rfl
    omega

theorem agree_of_token (hre : ∀ w operands, ¬ Redefines ts c.rest w operands) {t : Token} {more : List UInt8}
    (hrest : c.rest = t.bytes ++ more) : c.Agree (· < t.bytes.length) d := by
  refine h.agree fun k hk hrestated => ?_
  obtain ⟨w, operands, -, hre', -⟩ | ⟨u, more', hrest', hn⟩ := hrestated.cases h.read (Nat.le_add_right _ _)
  · exact hre w operands hre'
  · obtain rfl := Token.eq_of_append (hrest.symm.trans hrest')
    omega

theorem agreeFully (hre : ∀ w operands, ¬ Redefines ts c.rest w operands)
    (htoken : ∀ (t : Token) more, c.rest ≠ t.bytes ++ more) : c.AgreeFully d := by
  refine h.agree fun k _ hrestated => ?_
  obtain ⟨w, operands, -, hre', -⟩ | ⟨t, more, hrest, -⟩ := hrestated.cases h.read (Nat.le_add_right _ _)
  · exact hre w operands hre'
  · exact htoken t more hrest

theorem together_u8 : Together (fun a b => b = a) (fun c' d' => d'.pos = c'.pos) (u8 c) (u8 d) := by
  have hfirst : c.Agree (· = 0) d := by
    by_cases hre : ∃ w operands, Redefines ts c.rest w operands
    · obtain ⟨w, operands, hre⟩ := hre
      exact (h.agree_of_redefines hre).mono fun k hk i hi => by omega
    have hre' : ∀ w operands, ¬ Redefines ts c.rest w operands := fun w operands hr => hre ⟨w, operands, hr⟩
    by_cases htoken : ∃ (t : Token) (more : _), c.rest = t.bytes ++ more
    · obtain ⟨t, more, hrest⟩ := htoken
      exact (h.agree_of_token hre' hrest).mono fun k hk => by simp [hk, Token.bytes]
    · exact (h.agreeFully hre' fun t more hrest => htoken ⟨t, more, hrest⟩).mono fun _ _ => trivial
  exact (fixed_u8 hfirst).mono (fun a b hab => hab fun k hk => by omega) fun _ _ hc => hc.pos

theorem together_redefinition {w : Width} {operands : List UInt8} (hre : Redefines ts c.rest w operands) :
    ∃ c₁ d₁, u8 c = .ok (Opcode.fontDef w).toByte c₁ ∧ u8 d = .ok (Opcode.fontDef w).toByte d₁ ∧
      Together (fun x y => ∃ f g : FontDefinition, x = .defineFont f ∧ y = .defineFont g ∧ g.id = f.id)
        (fun c' d' => d'.pos = c'.pos) ((Opcode.fontDef w).operands c.pos c₁)
        ((Opcode.fontDef w).operands d.pos d₁) := by
  have hrest : c.rest = [(Opcode.fontDef w).toByte] ++ operands := hre.bytes_eq
  obtain ⟨c₁, hc₁, -⟩ := exists_passes hrest
  have hu8 : u8 c = .ok (Opcode.fontDef w).toByte c₁ := takes_u8.2 rfl hc₁
  obtain ⟨byte, d₁, hd, hbyte, hcursor⟩ := (fixed_u8 (h.agree_of_redefines hre)).of_ok hu8
  obtain rfl := hbyte fun k hk i hi => by omega
  have houtline : c₁.Agree (FontDefinition.IsOutline w) d₁ := hcursor.mono fun k hk i hi => by
    obtain rfl : i = k := by omega
    exact hk
  refine ⟨c₁, d₁, hu8, hd, ?_⟩
  rw [h.pos]
  exact (FontDefinition.together_read w c.pos houtline).bind fun f g _ _ hid hc => .ok ⟨f, g, rfl, rfl, hid⟩ hc

theorem passes {c' d' : Cursor} {t : Token} (hp : c.Passes t.bytes c') (hdata : d'.data = d.data)
    (hpos : d'.pos = c'.pos) : c'.Beside (ts ++ [t]) d' := by
  refine ⟨by rw [hdata, hp.data]; exact h.differ, hpos, ?_⟩
  rw [hp.data, h.read, hp.rest, List.flatMap_append]
  simp

/-- **The next command is the same in both streams**, or defines the same font once more. -/
theorem command? {c' : Cursor} {t : Token} {command : Command} (hp : c.Passes t.bytes c')
    (ht : (t.opcode.operands c.pos).Takes t.operands command) : ∃ command' d',
      d.command? = some (⟨c.pos, t.opcode.toByte⟩, command', d') ∧ c'.Beside (ts ++ [t]) d' ∧
      command.SameOrRedefines ts command' := by
  by_cases hre : ∃ w operands, Redefines ts c.rest w operands
  · obtain ⟨w, operands, hre⟩ := hre
    obtain ⟨c₁, d₁, hu8, hd, htogether⟩ := h.together_redefinition hre
    obtain ⟨ho, rfl⟩ := Token.of_append_eq_cons (hp.rest.symm.trans hre.bytes_eq)
    obtain ⟨c₂, h₁, h₂⟩ := hp.first
    rw [ho] at h₁ ht ⊢
    obtain rfl : c₁ = c₂ := (EStateM.Result.ok.inj (hu8.symm.trans (takes_u8.2 rfl h₁))).2
    obtain ⟨_, d', hoperands, ⟨f, g, rfl, rfl, hid⟩, hcursor⟩ := htogether.of_ok (ht h₂)
    have hread : d.command? = some (⟨c.pos, (Opcode.fontDef w).toByte⟩, .defineFont g, d') := by
      rw [← h.pos]
      simp only [Cursor.command?, hd, Opcode.ofByte_toByte, hoperands]
    obtain ⟨_, hd'⟩ := passes_of_command? hread
    refine ⟨.defineFont g, d', hread, h.passes hp hd'.data hcursor, .again hid ?_⟩
    obtain ⟨_, hf, hcommand⟩ := takes_map.1 ht
    cases hcommand
    obtain ⟨area, name, -, -, hlength⟩ := t.length_operands_of_fontDef ho
    have hdefined := hre.defined
    rwa [List.take_append_of_le_length (by omega), FontDefinition.id_of_takes hf] at hdefined
  · have hagree := h.agree_of_token (fun w operands hr => hre ⟨w, operands, hr⟩) hp.rest
    obtain ⟨d', hd⟩ := hagree.passes hp fun k hk => hk
    refine ⟨command, d', command?_iff_token.2 ⟨t, by rw [h.pos], hd, h.pos ▸ ht⟩, h.passes hp hd.data ?_, .same _⟩
    rw [hd.pos, hp.pos, h.pos]

/-- **Operands that fall short in one stream fall short in the other one in the same way.** -/
theorem operands_error {byte : UInt8} {c₁ c₂ : Cursor} {s : Shortfall} (hu8 : u8 c = .ok byte c₁)
    (hoperands : (Opcode.ofByte byte).operands c.pos c₁ = .error s c₂) : ∃ d₁ d₂, u8 d = .ok byte d₁ ∧
      (Opcode.ofByte byte).operands d.pos d₁ = .error s d₂ := by
  by_cases hre : ∃ w operands, Redefines ts c.rest w operands
  · obtain ⟨w, operands, hre⟩ := hre
    obtain ⟨c₃, d₁, hu8', hd, htogether⟩ := h.together_redefinition hre
    obtain ⟨rfl, rfl⟩ := EStateM.Result.ok.inj (hu8.symm.trans hu8')
    rw [Opcode.ofByte_toByte] at hoperands ⊢
    obtain ⟨d₂, hoperands'⟩ := htogether.of_error hoperands
    exact ⟨d₁, d₂, hd, hoperands'⟩
  · -- no token stands here, so there is nothing that could be said again, here or behind
    have htoken : ∀ (t : Token) more, c.rest ≠ t.bytes ++ more := by
      intro t more hrest
      obtain ⟨c', hp, -⟩ := exists_passes hrest
      obtain ⟨command, hread, -⟩ := t.exists_command? hp
      simp [Cursor.command?, hu8, hoperands] at hread
    have hagree := h.agreeFully (fun w operands hr => hre ⟨w, operands, hr⟩) htoken
    obtain ⟨_, d₁, hd, rfl, hagree₁⟩ := (Steady.together hagree).of_ok hu8
    obtain ⟨d₂, hoperands'⟩ := (Steady.together hagree₁).of_error hoperands
    exact ⟨d₁, d₂, hd, h.pos ▸ hoperands'⟩

end Beside

end Cursor

end Dvi
