import Dvi.Gzip.Inflate

/-!
# Compressed files

A compressed file is a header, compressed blocks, and the check sum and size of what they hold. Only the
first such member of a file is read.
-/

namespace Dvi.Gzip

/-- One bit of the division by the check polynomial. -/
def crcShift (r : UInt32) : UInt32 :=
  if r &&& 1 == 1 then (r >>> 1) ^^^ 0xEDB88320 else r >>> 1

/-- The division by the check polynomial, for the eight bits of a byte. -/
def crcStep (r : UInt32) (b : UInt8) : UInt32 :=
  let r := r ^^^ b.toUInt32
  crcShift (crcShift (crcShift (crcShift (crcShift (crcShift (crcShift (crcShift r)))))))

/-- The cyclic redundancy check of 32 bits. -/
def crc32 (bytes : List UInt8) : UInt32 := bytes.foldl crcStep 0xFFFFFFFF ^^^ 0xFFFFFFFF

/-- A field of `n` bytes at `pos`, the lowest byte first. -/
def field (data : ByteArray) (pos n : Nat) : Option Nat :=
  if pos + n ≤ data.size then
    some ((data.extract pos (pos + n)).data.toList.foldr (fun b v => b.toNat + 256 * v) 0)
  else none

/-- The position after the text at `pos`, which a zero byte ends. -/
def afterText (data : ByteArray) (pos : Nat) : Option Nat :=
  let text := (data.extract pos data.size).data.toList.takeWhile (· != 0)
  if pos + text.length < data.size then some (pos + text.length + 1) else none

/-- The bit for a check sum of the header. -/
def flagCheck : Nat := 1

/-- The bit for a field of the size that stands before it. -/
def flagExtra : Nat := 2

/-- The bit for the name of the file. -/
def flagName : Nat := 3

/-- The bit for a comment. -/
def flagComment : Nat := 4

/-- The length of the header, whose optional fields stand in a fixed order. -/
def header (data : ByteArray) : Except GzipError Nat := do
  let some magic := field data 0 3 | throw .unexpectedEnd
  let some flags := field data 3 1 | throw .unexpectedEnd
  if data.size < 10 then throw .unexpectedEnd
  if magic ≠ 0x088B1F || flags ≥ 32 then throw .badHeader
  let has (flag : Nat) : Bool := flags.testBit flag
  let mut pos := 10
  if has flagExtra then
    let some n := field data pos 2 | throw .unexpectedEnd
    if pos + 2 + n > data.size then throw .unexpectedEnd
    pos := pos + 2 + n
  if has flagName then
    let some next := afterText data pos | throw .unexpectedEnd
    pos := next
  if has flagComment then
    let some next := afterText data pos | throw .unexpectedEnd
    pos := next
  if has flagCheck then
    let some check := field data pos 2 | throw .unexpectedEnd
    if (crc32 (data.extract 0 pos).data.toList).toNat % 65536 ≠ check then throw .checksum
    pos := pos + 2
  return pos

/-- What the first member of a compressed file holds, and the reason if it cannot be read to its end. -/
def decompress (data : ByteArray) : ByteArray × Option GzipError :=
  match header data with
  | .error e => (.empty, some e)
  | .ok start =>
    match inflate data start with
    | (output, some e, _) => (output, some e)
    | (output, none, pos) =>
      match field data pos 4, field data (pos + 4) 4 with
      | some check, some size =>
        if check = (crc32 output.data.toList).toNat && size = output.size % UInt32.size then (output, none)
        else (output, some .checksum)
      | _, _ => (output, some .unexpectedEnd)

end Dvi.Gzip
