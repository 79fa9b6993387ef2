import Dvi.Font.Definition
import Dvi.Stream.Cursor
import Dvi.Stream.Opcode
import Dvi.Text.Utf8

/-!
# Commands

A command is an opcode together with its operands. What the operands say is independent of how many bytes
they were written in, so a `Command` holds values only.

* `Preamble`, `Postamble`: the fields at the front and at the end of a stream;
* `Opcode.operands`: reads what follows an opcode, field by field;
* **`Opcode.forward_operands`**: the reader goes forward.
-/

namespace Dvi

-- bytes are compared as arrays
attribute [local instance (high)] ByteArray.instDecidableEq

/-- What a stream says of itself at its front. -/
structure Preamble where
  id : UInt8
  numerator : UInt32
  denominator : UInt32
  magnification : UInt32
  comment : ByteArray
  deriving DecidableEq

/-- The comment as a text. Bytes that are none become replacement characters. -/
def Preamble.commentText (p : Preamble) : String := Utf8.lossy p.comment

/-- What a stream says of itself after its pages. -/
structure Postamble where
  /-- the offset of its opcode -/
  offset : Nat
  /-- the offset of the last page -/
  lastPage : Int32
  numerator : UInt32
  denominator : UInt32
  magnification : UInt32
  maxHeight : Int32
  maxWidth : Int32
  maxStackDepth : UInt16
  totalPages : UInt16
  /-- the pointer and the format number that end the stream, once they were read -/
  postPointer : Option Int32 := none
  id : Option UInt8 := none
  deriving DecidableEq

/-- Whether a character or a rule moves the position. -/
inductive Placement where
  | set
  | put
  deriving DecidableEq, Repr

/-- A command with its operands. -/
inductive Command where
  | typeset (placement : Placement) (code : UInt32)
  | rule (placement : Placement) (height width : Int32)
  | nop
  | beginPage (counts : Vector Int32 10) (backPointer : Int32)
  | endPage
  | push
  | pop
  | right (distance : Int32)
  | down (distance : Int32)
  /-- move by a register after setting it, if there is an operand -/
  | move (r : Register) (distance : Option Int32)
  | selectFont (id : UInt32)
  | special (payload : ByteArray)
  | defineFont (definition : FontDefinition)
  | preamble (fields : Preamble)
  | postamble (fields : Postamble)
  | postPostamble (pointer : Int32) (id : UInt8)
  | undefined

/-- An operand of a given width without sign. -/
def Width.unsigned (w : Width) : Read UInt32 := do return UInt32.ofNat (← Read.unsigned w.bytes)

/-- An operand of a given width with sign. -/
def Width.signed (w : Width) : Read Int32 := do return Int32.ofInt (← Read.signed w.bytes)

open Read

/-- The operands of a font definition whose opcode is at `offset`. -/
def FontDefinition.read (w : Width) (offset : Nat) : Read FontDefinition := do
  let id ← w.unsigned
  let checksum ← u32
  let scale ← i32
  let designSize ← i32
  let areaBytes ← u8
  let nameBytes ← u8
  let area ← take areaBytes.toNat
  let name ← take nameBytes.toNat
  return { id, checksum, scale, designSize, area := Utf8.lossy area, name := Utf8.lossy name, offset }

/-- The operands of the preamble. The comment has its length before it. -/
def Preamble.read : Read Preamble := do
  let id ← u8
  let numerator ← u32
  let denominator ← u32
  let magnification ← u32
  let commentBytes ← u8
  let comment ← take commentBytes.toNat
  return { id, numerator, denominator, magnification, comment }

/-- The operands of the postamble whose opcode is at `offset`. -/
def Postamble.read (offset : Nat) : Read Postamble := do
  let lastPage ← i32
  let numerator ← u32
  let denominator ← u32
  let magnification ← u32
  let maxHeight ← i32
  let maxWidth ← i32
  let maxStackDepth ← u16
  let totalPages ← u16
  return {
    offset := offset, lastPage, numerator, denominator, magnification, maxHeight, maxWidth, maxStackDepth,
    totalPages }

/-- The operands of a rule, whose height stands first. -/
def Command.readRule (placement : Placement) : Read Command := do
  let height ← i32
  let width ← i32
  return .rule placement height width

/-- The counts and the back pointer of a page. -/
def Command.readBeginPage : Read Command := do
  let counts ← i32.replicate 10
  let backPointer ← i32
  return .beginPage counts backPointer

/-- The length and the bytes of a special. -/
def Command.readSpecial (w : Width) : Read Command := do
  let length ← w.unsigned
  let payload ← take length.toNat
  return .special payload

/-- The pointer and the format number at the end of a stream. -/
def Command.readPostPostamble : Read Command := do
  let pointer ← i32
  let id ← u8
  return .postPostamble pointer id

/-- Reads the operands of an opcode that is at `offset`. -/
def Opcode.operands (offset : Nat) : Opcode → Read Command
  | .setChar c => pure (.typeset .set (UInt32.ofNat c.val))
  | .set w => Command.typeset .set <$> w.unsigned
  | .setRule => Command.readRule .set
  | .put w => Command.typeset .put <$> w.unsigned
  | .putRule => Command.readRule .put
  | .nop => pure .nop
  | .beginPage => Command.readBeginPage
  | .endPage => pure .endPage
  | .push => pure .push
  | .pop => pure .pop
  | .right w => Command.right <$> w.signed
  | .move r none => pure (.move r none)
  | .move r (some w) => (fun d => Command.move r (some d)) <$> w.signed
  | .down w => Command.down <$> w.signed
  | .fontNum k => pure (.selectFont (UInt32.ofNat k.val))
  | .font w => Command.selectFont <$> w.unsigned
  | .special w => Command.readSpecial w
  | .fontDef w => Command.defineFont <$> FontDefinition.read w offset
  | .preamble => Command.preamble <$> Preamble.read
  | .postamble => Command.postamble <$> Postamble.read offset
  | .postPostamble => Command.readPostPostamble
  | .undefined _ => pure .undefined

/-! ## The readers go forward -/

theorem Read.Forward.map {α β : Type} {r : Read α} (hr : Forward r) (f : α → β) :
    Forward (f <$> r) := hr.bind fun _ => forward_pure _

theorem Width.forward_unsigned (w : Width) : Forward w.unsigned :=
  (Read.forward_unsigned _).bind fun _ => forward_pure _

theorem Width.forward_signed (w : Width) : Forward w.signed :=
  (Read.forward_signed _).bind fun _ => forward_pure _

theorem FontDefinition.forward_read (w : Width) (offset : Nat) :
    Forward (FontDefinition.read w offset) :=
  w.forward_unsigned.bind fun _ => forward_u32.bind fun _ => forward_i32.bind fun _ =>
    forward_i32.bind fun _ => forward_u8.bind fun _ => forward_u8.bind fun _ =>
    (forward_take _).bind fun _ => (forward_take _).bind fun _ => forward_pure _

theorem Preamble.forward_read : Forward Preamble.read :=
  forward_u8.bind fun _ => forward_u32.bind fun _ => forward_u32.bind fun _ => forward_u32.bind fun _ =>
    forward_u8.bind fun _ => (forward_take _).bind fun _ => forward_pure _

theorem Postamble.forward_read (offset : Nat) : Forward (Postamble.read offset) :=
  forward_i32.bind fun _ => forward_u32.bind fun _ => forward_u32.bind fun _ => forward_u32.bind fun _ =>
    forward_i32.bind fun _ => forward_i32.bind fun _ => forward_u16.bind fun _ => forward_u16.bind fun _ =>
    forward_pure _

theorem Opcode.forward_operands (offset : Nat) (o : Opcode) : Forward (o.operands offset) := by
  have rule : ∀ p, Forward (Command.readRule p) := fun p =>
    forward_i32.bind fun _ => forward_i32.bind fun _ => forward_pure _
  cases o with
  | set w => exact w.forward_unsigned.map _
  | put w => exact w.forward_unsigned.map _
  | setRule => exact rule _
  | putRule => exact rule _
  | beginPage => exact (forward_i32.replicate 10).bind fun _ => forward_i32.bind fun _ => forward_pure _
  | right w => exact w.forward_signed.map _
  | down w => exact w.forward_signed.map _
  | move r w =>
    cases w with
    | none => exact forward_pure _
    | some w => exact w.forward_signed.map _
  | font w => exact w.forward_unsigned.map _
  | special w => exact w.forward_unsigned.bind fun _ => (forward_take _).bind fun _ => forward_pure _
  | fontDef w => exact (FontDefinition.forward_read w offset).map _
  | preamble => exact Preamble.forward_read.map _
  | postamble => exact (Postamble.forward_read offset).map _
  | postPostamble => exact forward_i32.bind fun _ => forward_u8.bind fun _ => forward_pure _
  | _ => exact forward_pure _

end Dvi
