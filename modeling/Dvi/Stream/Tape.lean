import Dvi.Stream.Opcode
import Dvi.Stream.Scan

/-!
# Tapes

A machine counts bytes in words. So a sum can be too large for a word, a difference can be negative, and bytes can be
asked for that are not there. On a tape each of these is an outcome of its own, a `Tape.Fault`. Unlike an `Error` it
says nothing about a stream: it would be a mistake of the reader.

* `ByteString`: bytes whose number is a word;
* `Tape`: a byte string and a position. That the position lies inside the string is not part of the type;
* `Tape.take`, `Tape.word`, `Tape.extendSign`: bytes, and the numbers that they write. All readers are built from these;
* `Tape.Request`, `Tape.Request.serve`: what can be asked of a tape;
* **`Tape.run`**: requests in turn. Errors are outcomes like any other; only a fault would end the run.
-/

namespace Dvi

/-- Bytes whose number is a word of the machine. -/
structure ByteString where
  bytes : ByteArray
  size_lt : bytes.size < USize.size

namespace ByteString

/-- The length of the string, in the type of the machine. -/
def length (s : ByteString) : USize := .ofNatLT s.bytes.size s.size_lt

/-- The byte at a position. -/
def get? (s : ByteString) (pos : USize) : Option UInt8 := s.bytes[pos.toNat]?

end ByteString

/-- A byte string and a position. -/
structure Tape where
  data : ByteString
  pos : USize

namespace Tape

/-- What cannot be computed. -/
inductive Fault where
  /-- a sum is no word -/
  | overflow
  /-- a number was to be taken from a smaller one -/
  | underflow
  /-- bytes were asked for that are not there -/
  | outOfBounds
  /-- no operand has so many bytes -/
  | badWidth
  deriving DecidableEq, Repr

/-- Why a reader of tapes fails. -/
inductive Failure where
  | error (e : Error)
  | fault (f : Fault)
  deriving DecidableEq, Repr

/-! ## Words -/

/-- A sum of sizes, if it is a size. -/
def add (a b : USize) : Except Fault USize :=
  if a.toNat + b.toNat < USize.size then .ok (a + b) else .error .overflow

/-- A difference of sizes, if it is a size. -/
def sub (a b : USize) : Except Fault USize := if b ≤ a then .ok (a - b) else .error .underflow

/-- The bytes between two positions. -/
def slice (s : ByteString) (first stop : USize) : Except Fault ByteArray :=
  if first ≤ stop ∧ stop ≤ s.length then .ok (s.bytes.extract first.toNat stop.toNat) else .error .outOfBounds

/-- The first of some bytes. -/
def front (bytes : ByteArray) : Except Fault UInt8 :=
  match bytes[0]? with
  | some b => .ok b
  | none => .error .outOfBounds

/-- A number with one more byte behind it. -/
def shiftIn (v : UInt64) (b : UInt8) : UInt64 := v <<< 8 ||| b.toUInt64

/-- The number that the first `n` bytes write, the most significant byte first. -/
def word (n : Nat) (bytes : ByteArray) : Except Fault UInt64 :=
  if n ≤ bytes.size then .ok ((bytes.data.toList.take n).foldl shiftIn 0) else .error .outOfBounds

/-- A number of `n` bytes in two's complement, widened: the bits in front repeat the sign. -/
def extendSign (n : Nat) (v : UInt64) : Int64 := (v <<< .ofNat (64 - 8 * n)).toInt64 >>> .ofNat (64 - 8 * n)

/-! ## Positions -/

/-- A tape before its first byte. -/
def start (data : ByteString) : Tape := ⟨data, 0⟩

/-- The number of bytes from the position to the end. -/
def remaining (t : Tape) : Except Fault USize := sub t.data.length t.pos

/-- Nothing is left. -/
def atEnd (t : Tape) : Bool := t.data.length ≤ t.pos

/-- The next byte, which stays unread. -/
def peek (t : Tape) : Option UInt8 := t.data.get? t.pos

/-- A reader: a value and the tape after it, or a failure and the tape where it happened. -/
abbrev Reader (α : Type) : Type := EStateM Failure Tape α

/-- A computation that reads nothing. -/
def computing {α : Type} (x : Except Fault α) : Reader α := fun t =>
  match x with
  | .ok a => .ok a t
  | .error f => .error (.fault f) t

/-- Moves to a position inside the string or at its end. -/
def seek (pos : USize) : Reader Unit := do
  let t ← get
  if t.data.length < pos then throw (.error (.outOfRange pos.toNat t.data.length.toNat))
  else set { t with pos := pos }

/-! ## Reading -/

/-- The next `n` bytes. -/
def take (n : USize) : Reader ByteArray := do
  let t ← get
  let left ← computing t.remaining
  if left < n then throw (.error (.truncated ⟨t.pos.toNat, n.toNat, left.toNat⟩ none))
  else do
    let stop ← computing (add t.pos n)
    set { t with pos := stop }
    computing (slice t.data t.pos stop)

/-- The next `n` bytes, as a part of the string. -/
def bytes (n : USize) : Reader ByteArray := do
  let t ← get
  let _ ← take n
  let stop ← computing (add t.pos n)
  computing (slice t.data t.pos stop)

/-- The next `n` bytes as a number. -/
def number (n : Nat) : Reader UInt64 := do computing (word n (← take (.ofNat n)))

/-- A byte. -/
def u8 : Reader UInt8 := do computing (front (← take 1))

/-- A number of two bytes. -/
def u16 : Reader UInt16 := do return (← number 2).toUInt16

/-- A number of three bytes. -/
def u24 : Reader UInt32 := do return (← number 3).toUInt32

/-- A number of four bytes. -/
def u32 : Reader UInt32 := do return (← number 4).toUInt32

/-- A number of one byte with sign. -/
def i8 : Reader Int8 := do return (← u8).toInt8

/-- A number of two bytes with sign. -/
def i16 : Reader Int16 := do return (← number 2).toUInt16.toInt16

/-- A number of three bytes with sign. No type has its width, so the sign is extended by hand. -/
def i24 : Reader Int32 := do return (extendSign 3 (← number 3)).toInt32

/-- A number of four bytes with sign. -/
def i32 : Reader Int32 := do return (← number 4).toUInt32.toInt32

/-- An operand of `n` bytes without sign. -/
def unsigned (n : UInt8) : Reader UInt32 :=
  match Width.ofBytes n.toNat with
  | some .one => UInt8.toUInt32 <$> u8
  | some .two => UInt16.toUInt32 <$> u16
  | some .three => u24
  | some .four => u32
  | none => throw (.fault .badWidth)

/-- An operand of `n` bytes with sign. -/
def signed (n : UInt8) : Reader Int32 :=
  match Width.ofBytes n.toNat with
  | some .one => Int8.toInt32 <$> i8
  | some .two => Int16.toInt32 <$> i16
  | some .three => i24
  | some .four => i32
  | none => throw (.fault .badWidth)

/-! ## Requests -/

/-- What can be asked of a tape. -/
inductive Request where
  /-- a number, in the type of the machine for its width -/
  | number (signed : Bool) (w : Width)
  /-- a number, in the one type of all operands -/
  | operand (signed : Bool) (w : Width)
  | bytes (n : USize)
  | skip (n : USize)
  | seek (pos : USize)
  | peek
  /-- the byte at a position, wherever the tape stands -/
  | byteAt (pos : USize)
  deriving DecidableEq, Repr

/-- What a request gives. A request to move gives nothing. -/
inductive Answer where
  | number (v : Int)
  | bytes (b : ByteArray)
  | byte (b : Option UInt8)
  | done

namespace Request

/-- Asks a tape. -/
def serve : Request → Reader Answer
  | .number false .one => (fun v => .number v.toNat) <$> u8
  | .number false .two => (fun v => .number v.toNat) <$> u16
  | .number false .three => (fun v => .number v.toNat) <$> u24
  | .number false .four => (fun v => .number v.toNat) <$> u32
  | .number true .one => (fun v => .number v.toInt) <$> i8
  | .number true .two => (fun v => .number v.toInt) <$> i16
  | .number true .three => (fun v => .number v.toInt) <$> i24
  | .number true .four => (fun v => .number v.toInt) <$> i32
  | .operand false w => (fun v => .number v.toNat) <$> unsigned (.ofNat w.bytes)
  | .operand true w => (fun v => .number v.toInt) <$> signed (.ofNat w.bytes)
  | .bytes n => .bytes <$> Tape.bytes n
  | .skip n => (fun _ => .done) <$> take n
  | .seek pos => (fun _ => .done) <$> Tape.seek pos
  | .peek => do return .byte (← get).peek
  | .byteAt pos => do return .byte ((← get).data.get? pos)

/-- Asks a tape, and goes on after an error. -/
def step (r : Request) (t : Tape) : Except Fault (Except Error Answer × Tape) :=
  match r.serve t with
  | .ok a t' => .ok (.ok a, t')
  | .error (.error e) t' => .ok (.error e, t')
  | .error (.fault f) _ => .error f

end Request

/-- The outcomes of requests that are made in turn, and the tape after them. -/
def run (t : Tape) : List Request → Except Fault (List (Except Error Answer) × Tape)
  | [] => .ok ([], t)
  | r :: rs => do
    let (outcome, t') ← r.step t
    let (outcomes, last) ← run t' rs
    return (outcome :: outcomes, last)

end Tape

end Dvi
