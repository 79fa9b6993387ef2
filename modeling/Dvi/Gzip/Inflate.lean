import Dvi.File.Error
import Dvi.Gzip.Huffman

/-!
# Compressed blocks

Compressed data are blocks of three kinds: stored bytes, and symbols in a fixed or a transmitted prefix
code. A symbol is a byte, the end of the block, or a length that is followed by a distance: so many bytes
are copied from so far back. Bits are taken from each byte lowest first.

The compressed bytes are fetched in portions and the bytes produced are handed on from a window, both of
`windowSize` bytes. Whenever a portion is used up, or the window is full, what was produced is *secured*.

`inflate` gives what could be read together with the reason if it had to stop early: **if the blocks are
corrupt, what was not yet secured is lost**.
-/

namespace Dvi.Gzip

/-- The size of the window, and of a portion of compressed bytes. No distance is greater. -/
def windowSize : Nat := 32768

/-- Where the reader of blocks stands: the next bit of `data`, the bytes produced, and how many of them are
secured. -/
structure Progress where
  data : ByteArray
  bit : Nat
  output : ByteArray := .empty
  secured : Nat := 0

/-- All that was produced is secured. -/
def Progress.secure (p : Progress) : Progress := { p with secured := p.output.size }

/-- The byte at a distance back. The window holds zeros before the first byte produced. -/
def Progress.back (p : Progress) (distance : Nat) : UInt8 :=
  if distance ≤ p.output.size then (p.output[p.output.size - distance]?).getD 0 else 0

/-- A reader of blocks; the progress made stays also when it fails. -/
abbrev Inflate (α : Type) : Type := EStateM GzipError Progress α

namespace Inflate

/-- The next bit. The first of a portion secures what the portions before it gave. -/
def bit : Inflate Nat := do
  if (← get).bit % (8 * windowSize) = 0 then modify Progress.secure
  let p ← get
  match p.data[p.bit / 8]? with
  | some b =>
    set { p with bit := p.bit + 1 }
    return b.toNat >>> (p.bit % 8) % 2
  | none => throw .incomplete

/-- A number of `n` bits, the lowest first. -/
def bits : Nat → Inflate Nat
  | 0 => return 0
  | n + 1 => do
    let low ← bit
    return low + 2 * (← bits n)

/-- The next symbol of a code, which need not have one for all bits. -/
def symbol (code : Huffman) : Inflate Nat := do
  match ← code.decode bit with
  | some s => return s
  | none => throw .corrupt

/-- One more byte. The first for which the window has no room secures the bytes that fill it. -/
def emit (b : UInt8) : Inflate Unit := do
  if (← get).output.size % windowSize = 0 then modify Progress.secure
  modify fun p => { p with output := p.output.push b }

/-- Copies `n` bytes from `distance` back, one after the other. -/
def copy (distance : Nat) : Nat → Inflate Unit
  | 0 => return ()
  | n + 1 => do
    emit ((← get).back distance)
    copy distance n

/-- The least length and the number of extra bits of each length symbol. -/
def lengthTable : List (Nat × Nat) :=
  [(3, 0), (4, 0), (5, 0), (6, 0), (7, 0), (8, 0), (9, 0), (10, 0), (11, 1), (13, 1), (15, 1), (17, 1),
    (19, 2), (23, 2), (27, 2), (31, 2), (35, 3), (43, 3), (51, 3), (59, 3), (67, 4), (83, 4), (99, 4),
    (115, 4), (131, 5), (163, 5), (195, 5), (227, 5), (258, 0)]

/-- The least distance and the number of extra bits of each distance symbol. -/
def distanceTable : List (Nat × Nat) :=
  [(1, 0), (2, 0), (3, 0), (4, 0), (5, 1), (7, 1), (9, 2), (13, 2), (17, 3), (25, 3), (33, 4), (49, 4),
    (65, 5), (97, 5), (129, 6), (193, 6), (257, 7), (385, 7), (513, 8), (769, 8), (1025, 9), (1537, 9),
    (2049, 10), (3073, 10), (4097, 11), (6145, 11), (8193, 12), (12289, 12), (16385, 13), (24577, 13)]

/-- A value from a table of least values and extra bits. -/
def extended (table : List (Nat × Nat)) (index : Nat) : Inflate Nat := do
  match table[index]? with
  | some (least, extra) => return least + (← bits extra)
  | none => throw .corrupt

/-- The symbols of a block up to its end. Each takes a bit at least, so `fuel` need not exceed the number
of bits. -/
def symbols (literals distances : Huffman) : (fuel : Nat) → Inflate Unit
  | 0 => throw .corrupt
  | fuel + 1 => do
    let s ← symbol literals
    if s < 256 then
      emit (UInt8.ofNat s)
      symbols literals distances fuel
    else if s = 256 then
      return ()
    else
      let length ← extended lengthTable (s - 257)
      let distance ← extended distanceTable (← symbol distances)
      copy distance length
      symbols literals distances fuel

/-- The code lengths of the fixed code of literals, and of the fixed code of distances. -/
def fixedLiterals : List Nat :=
  List.replicate 144 8 ++ List.replicate 112 9 ++ List.replicate 24 7 ++ List.replicate 8 8

/-- The code lengths of the fixed code of distances. -/
def fixedDistances : List Nat := List.replicate 32 5

/-- The order in which the lengths of the code for lengths are sent. -/
def lengthOrder : List Nat := [16, 17, 18, 0, 8, 7, 9, 6, 10, 5, 11, 4, 12, 3, 13, 2, 14, 1, 15]

/-- Code lengths until there are `wanted`; the list of those read is in reverse. -/
def codeLengths (code : Huffman) (wanted : Nat) : (fuel : Nat) → List Nat → Inflate (List Nat)
  | 0, _ => throw .corrupt
  | fuel + 1, read => do
    if read.length = wanted then return read.reverse
    if read.length > wanted then throw .corrupt
    let s ← symbol code
    if s < 16 then
      codeLengths code wanted fuel (s :: read)
    else if s = 16 then
      match read with
      | [] => throw .corrupt
      | last :: _ =>
        let n := 3 + (← bits 2)
        codeLengths code wanted fuel (List.replicate n last ++ read)
    else if s = 17 then
      let n := 3 + (← bits 3)
      codeLengths code wanted fuel (List.replicate n 0 ++ read)
    else
      let n := 11 + (← bits 7)
      codeLengths code wanted fuel (List.replicate n 0 ++ read)

/-- `n` numbers of three bits. -/
def triples : Nat → Inflate (List Nat)
  | 0 => return []
  | n + 1 => do
    let first ← bits 3
    return first :: (← triples n)

/-- The code with words of these lengths. -/
def codeOf (lengths : List Nat) : Inflate Huffman :=
  match Huffman.ofLengths lengths with
  | some h => return h
  | none => throw .corrupt

/-- The two codes that a block sends ahead of its symbols. Their lengths are sent in a third code, which
must be complete. -/
def transmittedCodes : Inflate (Huffman × Huffman) := do
  let literals := 257 + (← bits 5)
  let distances := 1 + (← bits 5)
  let sent := 4 + (← bits 4)
  if literals > 286 || distances > 30 then throw .corrupt
  let values := lengthOrder.zip (← triples sent)
  let lengthsOfLengths := (List.range lengthOrder.length).map fun i => (values.lookup i).getD 0
  if !Huffman.isComplete lengthsOfLengths then throw .corrupt
  let code ← codeOf lengthsOfLengths
  let lengths ← codeLengths code (literals + distances) (literals + distances + 1) []
  return (← codeOf (lengths.take literals), ← codeOf (lengths.drop literals))

/-- Whole bytes from the next byte boundary on. -/
def storedBytes : Nat → Inflate Unit
  | 0 => return ()
  | n + 1 => do
    emit (UInt8.ofNat (← bits 8))
    storedBytes n

/-- A block that is not compressed. It begins with a whole byte, and its length is given twice. -/
def stored : Inflate Unit := do
  modify fun p => { p with bit := (p.bit + 7) / 8 * 8 }
  let length ← bits 16
  let complement ← bits 16
  if length + complement = 0xFFFF then storedBytes length else throw .corrupt

/-- Blocks up to the last. -/
def blocks (bitCount : Nat) : (fuel : Nat) → Inflate Unit
  | 0 => throw .corrupt
  | fuel + 1 => do
    let last ← bit
    match ← bits 2 with
    | 0 => stored
    | 1 => symbols (← codeOf fixedLiterals) (← codeOf fixedDistances) bitCount
    | 2 =>
      let (literals, distances) ← transmittedCodes
      symbols literals distances bitCount
    | _ => throw .corrupt
    if last = 1 then return () else blocks bitCount fuel

end Inflate

/-- What the blocks from byte `start` on hold, the reason if they cannot be read to their end, and the
byte after them. -/
def inflate (data : ByteArray) (start : Nat) : ByteArray × Option GzipError × Nat :=
  let bitCount := 8 * data.size + 1
  match Inflate.blocks bitCount bitCount { data, bit := 8 * start } with
  | .ok _ p => (p.output, none, (p.bit + 7) / 8)
  | .error e p =>
    let kept := if e = .corrupt then p.output.extract 0 p.secured else p.output
    (kept, some e, (p.bit + 7) / 8)

end Dvi.Gzip
