import Dvi.Proofs.Machine.Runs
import Dvi.Proofs.Stream.Grammar
import Mathlib.Data.List.Induction

/-!
# Reading tokens

The commands that can be read are the tokens of the language.

* **`Opcode.exists_takes_iff`**: operands can be read if and only if they are prescribed;
* **`Cursor.command?_iff_token`**: a command is read at a position if and only if a token stands there.
-/

namespace Dvi

open Read

theorem Width.bytes_le (w : Width) : w.bytes ≤ 4 := by cases w <;> decide

theorem toNat_ofNat_bigEndian {bs : List UInt8} (h : bs.length ≤ 4) :
    (UInt32.ofNat (bigEndian bs)).toNat = bigEndian bs := by
  have hp : 256 ^ bs.length ≤ 256 ^ 4 := Nat.pow_le_pow_right (by decide) h
  exact UInt32.toNat_ofNat_of_lt' (Nat.lt_of_lt_of_le (bigEndian_lt bs) hp)

theorem take_append_take_append_drop (bs rest : List UInt8) :
    bs.take 4 ++ ((bs.drop 4).take 4 ++ (bs.drop 8 ++ rest)) = bs ++ rest := by
  have hd : bs.drop 8 = (bs.drop 4).drop 4 := by rw [List.drop_drop]
  rw [hd, ← List.append_assoc ((bs.drop 4).take 4), List.take_append_drop, ← List.append_assoc,
    List.take_append_drop]

/-- **Operand bytes can be read if and only if the opcode prescribes them.** -/
theorem Opcode.exists_takes_iff {offset : Nat} {o : Opcode} {bs : List UInt8} :
    (∃ command, (o.operands offset).Takes bs command) ↔ o.Prescribes bs := by
  have rule : ∀ p : Placement, (Command.readRule p).Field 8 := fun p =>
    field_i32.bind fun _ => field_i32.map _
  have beginPage : Command.readBeginPage.Field 44 :=
    (field_i32.replicate 10).bind fun _ => field_i32.map _
  have postPostamble : Command.readPostPostamble.Field 5 := field_i32.bind fun _ => field_u8.map _
  cases o with
  | set w | put w | font w => exact (w.field_unsigned.map _) bs
  | right w | down w => exact (w.field_signed.map _) bs
  | setRule | putRule => exact rule _ bs
  | beginPage => exact beginPage bs
  | postamble => exact ((Postamble.field_read offset).map _) bs
  | postPostamble => exact postPostamble bs
  | move r w =>
    cases w with
    | none => exact (field_pure _ bs).trans (by simp [Prescribes, moveIndex])
    | some w => exact (w.field_signed.map _) bs
  | setChar _ | nop | endPage | push | pop | fontNum _ | undefined _ =>
    exact (field_pure _ bs).trans List.length_eq_zero_iff
  | special w =>
    simp only [operands, Command.takes_readSpecial, Prescribes]
    refine ⟨?_, ?_⟩
    · rintro ⟨_, n, payload, rfl, hn, hp, -⟩
      rw [toNat_ofNat_bigEndian (hn ▸ w.bytes_le)] at hp
      exact ⟨n, payload, rfl, hn, hp⟩
    · rintro ⟨n, payload, rfl, hn, hp⟩
      rw [← toNat_ofNat_bigEndian (hn ▸ w.bytes_le)] at hp
      exact ⟨_, n, payload, rfl, hn, hp, rfl⟩
  | fontDef w =>
    simp only [operands, takes_map, FontDefinition.takes_read, Prescribes]
    refine ⟨?_, ?_⟩
    · rintro ⟨_, _, ⟨id, c, s, d, a, l, area, name, rfl, hi, hc, hs, hd, ha, hl, -⟩, -⟩
      refine ⟨id, c ++ s ++ d, a, l, area ++ name, by simp, hi, ?_, ?_⟩
      · simp [hc, hs, hd]
      · simp [ha, hl]
    · rintro ⟨id, fields, a, l, texts, rfl, hi, hf, ht⟩
      refine ⟨_, _, ⟨id, fields.take 4, (fields.drop 4).take 4, fields.drop 8, a, l, texts.take a.toNat,
        texts.drop a.toNat, ?_, hi, ?_, ?_, ?_, ?_, ?_, rfl⟩, rfl⟩
      · simp only [List.append_assoc, take_append_take_append_drop, List.take_append_drop]
      all_goals simp only [List.length_take, List.length_drop]; omega
  | preamble =>
    simp only [operands, takes_map, Preamble.takes_read, Prescribes]
    refine ⟨?_, ?_⟩
    · rintro ⟨_, _, ⟨id, n, d, m, k, comment, rfl, hn, hd, hm, hk, -⟩, -⟩
      exact ⟨id, n ++ d ++ m, k, comment, by simp, by simp [hn, hd, hm], hk⟩
    · rintro ⟨id, units, k, comment, rfl, hu, hk⟩
      refine ⟨_, _, ⟨id, units.take 4, (units.drop 4).take 4, units.drop 8, k, comment, ?_, ?_, ?_, ?_, hk, rfl⟩,
        rfl⟩
      · simp only [List.append_assoc, take_append_take_append_drop]
      all_goals simp only [List.length_take, List.length_drop]; omega

/-- **A command is read if and only if a token stands at the position.** -/
theorem Cursor.command?_iff_token {c c' : Cursor} {site : Site} {command : Command} :
    c.command? = some (site, command, c') ↔ ∃ t : Token, site = ⟨c.pos, t.opcode.toByte⟩ ∧
      c.Passes t.bytes c' ∧ (t.opcode.operands c.pos).Takes t.operands command := by
  rw [command?_eq_some_iff]
  refine ⟨?_, ?_⟩
  · rintro ⟨ho, bs, hp, ht⟩
    obtain ⟨offset, byte⟩ := site
    subst ho
    refine ⟨⟨Opcode.ofByte byte, bs, Opcode.exists_takes_iff.1 ⟨_, ht⟩⟩, ?_, ?_, ht⟩
    · simp only [Opcode.toByte_ofByte]
    · simpa only [Token.bytes, Opcode.toByte_ofByte] using hp
  · rintro ⟨t, rfl, hp, ht⟩
    refine ⟨rfl, t.operands, hp, ?_⟩
    simpa only [Opcode.ofByte_toByte] using ht

end Dvi
