import Dvi.Text.Blank
import Dvi.Text.Utf8

/-!
# Fields of lines

A line is read byte by byte. A field is the text between two offsets, and these must not lie inside a character:
cutting there is a fault. It never happens, since the bytes that end a field are characters of their own. So the fields
are the same as when the line is read character by character.

* `MapLine.cut`: the text between two offsets; `MapLine.readFields`: **the fields of a line**;
* `MapLine.fieldsFrom`: fields, read by characters;
* `MapLine.scanBytes_eq`, **`MapLine.readFields_ofList`**: both are the same.
-/

namespace Dvi.MapLine

/-- A field of a line. -/
structure Field where
  text : String
  quoted : Bool := false
  deriving DecidableEq, Repr

/-- What can go wrong with the fields of a line: a quote is not closed, or a text would be cut inside a character. -/
inductive FieldFault where
  | unterminatedQuote
  | insideCharacter
  deriving DecidableEq, Repr

/-! ## Bytes -/

/-- A character begins or the line ends at an offset. -/
def isBoundary (line : String) (offset : Nat) : Bool := (String.Pos.Raw.mk offset).isValid line

/-- The text between two offsets. -/
def cut (line : String) (start stop : Nat) : Except FieldFault String :=
  if h : start ≤ stop ∧ isBoundary line start = true ∧ isBoundary line stop = true then
    have hstart := String.Pos.Raw.isValid_eq_true_iff.1 h.2.1
    have hstop := String.Pos.Raw.isValid_eq_true_iff.1 h.2.2
    .ok (.ofByteArray (line.toByteArray.extract start stop)
      ((String.Pos.Raw.isValidUTF8_extract_iff ⟨start⟩ ⟨stop⟩ h.1 hstop.le_rawEndPos).2 (.inr ⟨hstart, hstop⟩)))
  else .error .insideCharacter

/-- The byte that opens and closes a quoted field. -/
def quoteByte : UInt8 := 0x22

/-- Space, tab, line feed, form feed and carriage return. -/
def isSeparatorByte (b : UInt8) : Bool := b == 0x20 || b == 0x09 || b == 0x0A || b == 0x0C || b == 0x0D

/-- Where the reader of bytes stands: between fields, or in one that begins at an offset. -/
inductive ByteScan where
  | between
  | word (start : Nat)
  | quote (start : Nat)

/-- The text behind a quote is looked through for the quote that closes it, so it must begin with a character. -/
def openQuote (line : String) (offset : Nat) : Except FieldFault Unit :=
  if isBoundary line offset then .ok () else .error .insideCharacter

/-- The fields from an offset on, where the remaining bytes of the line are. -/
def scanBytes (line : String) : ByteScan → Nat → List UInt8 → Except FieldFault (List Field)
  | .between, _, [] => .ok []
  | .word start, i, [] => do
    let text ← cut line start i
    return [⟨text, false⟩]
  | .quote _, _, [] => .error .unterminatedQuote
  | .between, i, b :: rest =>
    if b = quoteByte then do
      openQuote line (i + 1)
      scanBytes line (.quote (i + 1)) (i + 1) rest
    else if isSeparatorByte b then scanBytes line .between (i + 1) rest
    else scanBytes line (.word i) (i + 1) rest
  | .word start, i, b :: rest =>
    if b = quoteByte then do
      let text ← cut line start i
      openQuote line (i + 1)
      let fs ← scanBytes line (.quote (i + 1)) (i + 1) rest
      return ⟨text, false⟩ :: fs
    else if isSeparatorByte b then do
      let text ← cut line start i
      let fs ← scanBytes line .between (i + 1) rest
      return ⟨text, false⟩ :: fs
    else scanBytes line (.word start) (i + 1) rest
  | .quote start, i, b :: rest =>
    if b = quoteByte then do
      let text ← cut line start i
      let fs ← scanBytes line .between (i + 1) rest
      return ⟨text, true⟩ :: fs
    else scanBytes line (.quote start) (i + 1) rest

/-- **The fields of a line.** -/
def readFields (line : String) : Except FieldFault (List Field) :=
  scanBytes line .between 0 line.toUTF8.data.toList

/-! ## Characters -/

/-- Where a reader of characters stands; the characters of the field under way are in reverse. -/
inductive Scan where
  | between
  | word (read : List Char)
  | quote (read : List Char)

/-- The fields from a position on. A quote that is not closed leaves none. -/
def fieldsFrom : Scan → List Char → Option (List Field)
  | .between, [] => some []
  | .word read, [] => some [⟨String.ofList read.reverse, false⟩]
  | .quote _, [] => none
  | .between, c :: rest =>
    if c = '"' then fieldsFrom (.quote []) rest
    else if Text.isSeparator c then fieldsFrom .between rest
    else fieldsFrom (.word [c]) rest
  | .word read, c :: rest =>
    if c = '"' then
      (fieldsFrom (.quote []) rest).map (⟨String.ofList read.reverse, false⟩ :: ·)
    else if Text.isSeparator c then
      (fieldsFrom .between rest).map (⟨String.ofList read.reverse, false⟩ :: ·)
    else fieldsFrom (.word (c :: read)) rest
  | .quote read, c :: rest =>
    if c = '"' then
      (fieldsFrom .between rest).map (⟨String.ofList read.reverse, true⟩ :: ·)
    else fieldsFrom (.quote (c :: read)) rest

/-! ## Bytes of characters -/

/-- The bytes of characters. -/
def encode (cs : List Char) : List UInt8 := cs.flatMap String.utf8EncodeChar

theorem toUTF8_ofList (cs : List Char) : (String.ofList cs).toUTF8.data.toList = encode cs := by
  rw [bytes_toUTF8, String.toList_ofList, encode]

theorem length_encode (cs : List Char) : (encode cs).length = (String.ofList cs).toByteArray.size := by
  rw [← toUTF8_ofList]
  rfl

theorem length_encode_append (as bs : List Char) :
    (encode (as ++ bs)).length = (encode as).length + (encode bs).length := by
  rw [encode, List.flatMap_append, List.length_append]
  rfl

theorem encode_cons (c : Char) (cs : List Char) : encode (c :: cs) = String.utf8EncodeChar c ++ encode cs :=
  List.flatMap_cons

theorem length_encode_concat (cs : List Char) (c : Char) :
    (encode (cs ++ [c])).length = (encode cs).length + (String.utf8EncodeChar c).length := by
  rw [length_encode_append, encode, encode, List.flatMap_singleton]

theorem isBoundary_append (as bs : List Char) : isBoundary (String.ofList (as ++ bs)) (encode as).length = true := by
  refine String.Pos.Raw.isValid_eq_true_iff.2 (String.Pos.Raw.isValid_iff_exists_append.2 ?_)
  refine ⟨.ofList as, .ofList bs, String.ofList_append, ?_⟩
  rw [length_encode]
  rfl

theorem cut_append (as bs cs : List Char) :
    cut (String.ofList (as ++ bs ++ cs)) (encode as).length (encode (as ++ bs)).length = .ok (String.ofList bs) := by
  have hle : (encode as).length ≤ (encode (as ++ bs)).length := by
    rw [length_encode_append]
    exact Nat.le_add_right ..
  have hstart : isBoundary (String.ofList (as ++ bs ++ cs)) (encode as).length = true := by
    rw [List.append_assoc]
    exact isBoundary_append as (bs ++ cs)
  rw [cut, dif_pos ⟨hle, hstart, isBoundary_append (as ++ bs) cs⟩]
  refine congrArg _ (String.toByteArray_inj.1 ?_)
  show (String.ofList (as ++ bs ++ cs)).toByteArray.extract _ _ = _
  rw [List.append_assoc, String.ofList_append, String.ofList_append, String.toByteArray_append,
    String.toByteArray_append, length_encode_append, length_encode, length_encode]
  exact (ByteArray.extract_append_size_add (i := 0)).trans (ByteArray.extract_append_eq_left rfl)

theorem cut_read {before front read : List Char} (h : before = front ++ read.reverse) (rest : List Char) :
    cut (String.ofList (before ++ rest)) (encode front).length (encode before).length =
      .ok (String.ofList read.reverse) := by
  rw [h]
  exact cut_append front read.reverse rest

theorem openQuote_append (as bs : List Char) : openQuote (String.ofList (as ++ bs)) (encode as).length = .ok () :=
  if_pos (isBoundary_append as bs)

theorem encode_quote : String.utf8EncodeChar '"' = [quoteByte] := rfl

theorem encode_separator {c : Char} (h : Text.isSeparator c = true) :
    ∃ b, String.utf8EncodeChar c = [b] ∧ b ≠ quoteByte ∧ isSeparatorByte b = true := by
  simp only [Text.isSeparator, Bool.or_eq_true, beq_iff_eq] at h
  rcases h with (((rfl | rfl) | rfl) | rfl) | rfl <;> exact ⟨_, rfl, by decide, by decide⟩

theorem eq_of_mem_utf8EncodeChar {c d : Char} {b : UInt8} (hb : b ∈ String.utf8EncodeChar c)
    (hd : String.utf8EncodeChar d = [b]) (hsmall : b.toNat < 128) : c = d := by
  have hbd : b ∈ String.utf8EncodeChar d := by rw [hd]; exact .head _
  obtain ⟨hc, -⟩ | ⟨hlarge, -⟩ := byte_of_mem_utf8EncodeChar hb
  · obtain ⟨hd, -⟩ | ⟨hlarge, -⟩ := byte_of_mem_utf8EncodeChar hbd
    · exact Char.ext (UInt32.toNat_inj.1 (hc.symm.trans hd))
    · omega
  · omega

theorem ne_quoteByte_of_mem {c : Char} (hc : c ≠ '"') {b : UInt8} (hb : b ∈ String.utf8EncodeChar c) :
    b ≠ quoteByte := by
  rintro rfl
  exact hc (eq_of_mem_utf8EncodeChar hb encode_quote (by decide))

theorem exists_separator {b : UInt8} (h : isSeparatorByte b = true) :
    ∃ d, Text.isSeparator d = true ∧ String.utf8EncodeChar d = [b] ∧ b.toNat < 128 := by
  simp only [isSeparatorByte, Bool.or_eq_true, beq_iff_eq] at h
  rcases h with (((rfl | rfl) | rfl) | rfl) | rfl
  · exact ⟨' ', by decide, rfl, by decide⟩
  · exact ⟨'\t', by decide, rfl, by decide⟩
  · exact ⟨'\n', by decide, rfl, by decide⟩
  · exact ⟨'\x0c', by decide, rfl, by decide⟩
  · exact ⟨'\r', by decide, rfl, by decide⟩

theorem isSeparatorByte_of_mem {c : Char} (hc : ¬Text.isSeparator c = true) {b : UInt8}
    (hb : b ∈ String.utf8EncodeChar c) : ¬isSeparatorByte b = true := by
  intro h
  obtain ⟨d, hd, hencode, hsmall⟩ := exists_separator h
  exact hc (eq_of_mem_utf8EncodeChar hb hencode hsmall ▸ hd)

/-! ## The same fields -/

section Scan

variable {line : String} {start : Nat} {bs : List UInt8}

theorem scanBytes_word (h : ∀ b ∈ bs, b ≠ quoteByte ∧ ¬isSeparatorByte b = true) (i : Nat) (rest : List UInt8) :
    scanBytes line (.word start) i (bs ++ rest) = scanBytes line (.word start) (i + bs.length) rest := by
  induction bs generalizing i with
  | nil => rfl
  | cons b bs ih =>
    obtain ⟨hquote, hseparator⟩ := h b (.head bs)
    rw [List.cons_append, scanBytes, if_neg hquote, if_neg hseparator, ih fun b hb => h b (.tail _ hb),
      List.length_cons, Nat.add_assoc, Nat.add_comm 1]

theorem scanBytes_quote (h : ∀ b ∈ bs, b ≠ quoteByte) (i : Nat) (rest : List UInt8) :
    scanBytes line (.quote start) i (bs ++ rest) = scanBytes line (.quote start) (i + bs.length) rest := by
  induction bs generalizing i with
  | nil => rfl
  | cons b bs ih =>
    rw [List.cons_append, scanBytes, if_neg (h b (.head bs)), ih fun b hb => h b (.tail _ hb), List.length_cons,
      Nat.add_assoc, Nat.add_comm 1]

theorem scanBytes_between (hbs : bs ≠ []) (h : ∀ b ∈ bs, b ≠ quoteByte ∧ ¬isSeparatorByte b = true) (i : Nat)
    (rest : List UInt8) : scanBytes line .between i (bs ++ rest) = scanBytes line (.word i) (i + bs.length) rest := by
  obtain ⟨b, bs, rfl⟩ := List.exists_cons_of_ne_nil hbs
  obtain ⟨hquote, hseparator⟩ := h b (.head bs)
  rw [List.cons_append, scanBytes, if_neg hquote, if_neg hseparator, scanBytes_word fun b hb => h b (.tail _ hb),
    List.length_cons, Nat.add_assoc, Nat.add_comm 1]

end Scan

/-- Both readers stand at the same place: a field under way began in front of the characters that were read of it. -/
inductive Agrees (before : List Char) : Scan → ByteScan → Prop
  | between : Agrees before .between .between
  | word {front read : List Char} (h : before = front ++ read.reverse) :
    Agrees before (.word read) (.word (encode front).length)
  | quote {front read : List Char} (h : before = front ++ read.reverse) :
    Agrees before (.quote read) (.quote (encode front).length)

/-- The outcome of reading bytes, by that of reading characters. -/
def outcome : Option (List Field) → Except FieldFault (List Field)
  | some fs => .ok fs
  | none => .error .unterminatedQuote

theorem outcome_injective {x y : Option (List Field)} (h : outcome x = outcome y) : x = y := by
  cases x <;> cases y <;> cases h <;> rfl

theorem outcome_map (f : Field) (fs : Option (List Field)) :
    outcome (fs.map (f :: ·)) = outcome fs >>= fun fs => pure (f :: fs) := by
  cases fs <;> rfl

/-- **Both readers find the same fields.** -/
theorem scanBytes_eq (cs : List Char) (s : Scan) {before : List Char} {b : ByteScan} (h : Agrees before s b) :
    scanBytes (.ofList (before ++ cs)) b (encode before).length (encode cs) = outcome (fieldsFrom s cs) := by
  have hquote (before : List Char) : (encode before).length + 1 = (encode (before ++ ['"'])).length :=
    (length_encode_concat before '"').symm
  have hseparator (before : List Char) {c : Char} (hc : Text.isSeparator c = true) :
      ∃ b, String.utf8EncodeChar c = [b] ∧ b ≠ quoteByte ∧ isSeparatorByte b = true ∧
        (encode before).length + 1 = (encode (before ++ [c])).length := by
    obtain ⟨b, hb, hne, hseparatorByte⟩ := encode_separator hc
    exact ⟨b, hb, hne, hseparatorByte, by rw [length_encode_concat, hb]; rfl⟩
  have hother {c : Char} (hc : c ≠ '"') (hseparator : ¬Text.isSeparator c = true) :
      ∀ b ∈ String.utf8EncodeChar c, b ≠ quoteByte ∧ ¬isSeparatorByte b = true :=
    fun b hb => ⟨ne_quoteByte_of_mem hc hb, isSeparatorByte_of_mem hseparator hb⟩
  fun_induction fieldsFrom s cs generalizing before b with
  | case1 =>
    cases h
    rfl
  | case2 read =>
    cases h with | word h =>
    show scanBytes _ _ _ [] = _
    rw [scanBytes, cut_read h]
    rfl
  | case3 read =>
    cases h
    rfl
  | case4 rest ih =>
    cases h
    rw [encode_cons, encode_quote, List.singleton_append, scanBytes, if_pos rfl, hquote, List.append_cons,
      openQuote_append]
    exact ih (.quote (List.append_nil _).symm)
  | case5 c rest hc hblank ih =>
    cases h
    obtain ⟨b, hb, hne, hseparatorByte, hstep⟩ := hseparator before hblank
    rw [encode_cons, hb, List.singleton_append, scanBytes, if_neg hne, if_pos hseparatorByte, hstep, List.append_cons]
    exact ih .between
  | case6 c rest hc hblank ih =>
    cases h
    rw [encode_cons, scanBytes_between String.utf8EncodeChar_ne_nil (hother hc hblank), ← length_encode_concat,
      List.append_cons]
    exact ih (.word rfl)
  | case7 read rest ih =>
    cases h with | word h =>
    rw [encode_cons, encode_quote, List.singleton_append, scanBytes, if_pos rfl, cut_read h, hquote, List.append_cons,
      openQuote_append, outcome_map, ← ih (.quote (List.append_nil _).symm)]
    rfl
  | case8 read c rest hc hblank ih =>
    cases h with | word h =>
    obtain ⟨b, hb, hne, hseparatorByte, hstep⟩ := hseparator before hblank
    rw [encode_cons, hb, List.singleton_append, scanBytes, if_neg hne, if_pos hseparatorByte, cut_read h, hstep,
      List.append_cons, outcome_map, ← ih .between]
    rfl
  | case9 read c rest hc hblank ih =>
    cases h with | word h =>
    rw [encode_cons, scanBytes_word (hother hc hblank), ← length_encode_concat, List.append_cons]
    exact ih (.word (by rw [h, List.reverse_cons, List.append_assoc]))
  | case10 read rest ih =>
    cases h with | quote h =>
    rw [encode_cons, encode_quote, List.singleton_append, scanBytes, if_pos rfl, cut_read h, hquote, List.append_cons,
      outcome_map, ← ih .between]
    rfl
  | case11 read c rest hc ih =>
    cases h with | quote h =>
    rw [encode_cons, scanBytes_quote fun b hb => ne_quoteByte_of_mem hc hb, ← length_encode_concat, List.append_cons]
    exact ih (.quote (by rw [h, List.reverse_cons, List.append_assoc]))

theorem readFields_ofList (cs : List Char) : readFields (.ofList cs) = outcome (fieldsFrom .between cs) := by
  rw [readFields, toUTF8_ofList]
  have hstart : Agrees [] .between .between := .between
  exact scanBytes_eq cs .between hstart

/-- No text is cut inside a character. -/
theorem readFields_ne_insideCharacter (line : String) : readFields line ≠ .error .insideCharacter := by
  rw [← String.ofList_toList (s := line), readFields_ofList]
  cases fieldsFrom .between line.toList <;> nofun

/-- The fields of a line of characters; none if a quote is not closed. -/
def fields (line : List Char) : Option (List Field) :=
  match h : readFields (.ofList line) with
  | .ok fs => some fs
  | .error .unterminatedQuote => none
  | .error .insideCharacter => absurd h (readFields_ne_insideCharacter _)

theorem fields_eq (line : List Char) : fields line = fieldsFrom .between line := by
  have h := readFields_ofList line
  unfold fields
  split <;> rename_i hread
  · exact (outcome_injective (y := some _) (h.symm.trans hread)).symm
  · exact (outcome_injective (y := none) (h.symm.trans hread)).symm
  · exact absurd hread (readFields_ne_insideCharacter _)

end Dvi.MapLine
