import Dvi.Stream.Command
import Dvi.Stream.Scan
import Dvi.Warning

/-!
# The end of a stream

A stream ends with its postamble, the definitions of all fonts, a last command that points back to the
postamble, and padding. The last command stands six bytes before the padding, so the postamble is found
without reading the pages.

* `Trailer.locate`: finds and reads the end of a stream;
* `Trailer.readFonts`: the font definitions up to the next last command. It ends since each command takes a
  byte at least.
-/

namespace Dvi

/-- The end of a stream. -/
structure Trailer where
  /-- with the pointer and the format number of the last command -/
  postamble : Postamble
  fonts : List FontDefinition
  /-- the offset of the last command -/
  postPostOffset : Nat
  /-- the number of padding bytes -/
  padding : Nat
  deriving DecidableEq

namespace Trailer

/-- The format number at the end of the stream. -/
def id (t : Trailer) : UInt8 := t.postamble.id.getD 0

/-- The bytes of the last command: its opcode, the pointer and the format number. -/
def lastCommandBytes : Nat := 6

/-- The number of padding bytes at the end of a stream. -/
def paddingOf (data : ByteArray) : Nat :=
  (data.data.toList.reverse.takeWhile (· == Opcode.padding)).length

/-- Too little padding. -/
def warnings (data : ByteArray) : List Warning :=
  if paddingOf data < 4 then [.shortPadding (paddingOf data)] else []

/-- The font definitions up to the next last command, which is read too. -/
def readFonts (c : Cursor) : EStateM.Result Error Cursor (List FontDefinition) :=
  match _h : Read.u8 c with
  | .error s c₁ => .error (.truncated s none) c₁
  | .ok byte c₁ =>
    match Opcode.ofByte byte with
    | .fontDef w =>
      match _h' : FontDefinition.read w c.pos c₁ with
      | .error s c₂ => .error (.truncated s (some byte)) c₂
      | .ok d c₂ =>
        match readFonts c₂ with
        | .ok ds c₃ => .ok (d :: ds) c₃
        | .error e c₃ => .error e c₃
    | .nop => readFonts c₁
    | .postPostamble => .ok [] c₁
    | _ => .error (.unexpectedOpcode ⟨c.pos, byte⟩) c₁
termination_by c.remaining
decreasing_by
  · have h₁ := Read.remaining_of_u8 _h
    have h₂ := (FontDefinition.forward_read w c.pos).remaining_le c₁
    rw [Read.after, _h'] at h₂
    simp only at h₂
    omega
  · have h₁ := Read.remaining_of_u8 _h
    omega

/-- Finds the last command, follows its pointer to the postamble, and reads the fonts from there. -/
def locate : Scan Trailer := do
  let data := (← get).data
  let padding := paddingOf data
  let stop := data.size - padding
  if stop < lastCommandBytes then
    throw (.truncated ⟨0, lastCommandBytes, stop⟩ none)
  let postPostOffset := stop - lastCommandBytes
  let opcode := (data[postPostOffset]?).getD 0
  if Opcode.ofByte opcode ≠ .postPostamble then
    throw (.malformedHeader ⟨postPostOffset, opcode⟩)
  Scan.seek (postPostOffset + 1)
  let pointer ← Scan.reading none Read.i32
  let id ← Scan.reading none Read.u8
  if pointer < 0 || pointer.toInt.toNat ≥ postPostOffset then
    throw (.malformedHeader ⟨postPostOffset, opcode⟩)
  let offset := pointer.toInt.toNat
  Scan.seek offset
  let opcode ← Scan.reading none Read.u8
  if Opcode.ofByte opcode ≠ .postamble then
    throw (.malformedHeader ⟨offset, opcode⟩)
  let postamble ← Scan.reading (some opcode) (Postamble.read offset)
  let fonts ← readFonts
  return {
    postamble := { postamble with postPointer := some pointer, id := some id }
    fonts, postPostOffset, padding }

end Trailer

end Dvi
