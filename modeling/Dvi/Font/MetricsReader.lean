import Dvi.Stream.Scan

/-!
# Reading metrics files

A metrics file begins with twelve sizes of two bytes. They count the words of four bytes in the tables that
follow: header, character table, widths, heights, depths, and tables that only typesetting needs. An entry of
the character table holds indices into the three tables of dimensions.

The file is read from its front, one table after the other. That could end in more ways than with a defect of the
file: a table could reach beyond the last byte, a difference of sizes could be negative, an index could lie beyond
its table. Each is an outcome of its own, a `Metrics.Fault`.

* `Metrics.Sizes.check`: refuses sizes that do not fit;
* `Metrics.Tables.char`: the dimensions to which an entry of the character table points;
* **`Metrics.parse`**: the metrics in a file, or why reading it ended.
-/

namespace Dvi.Metrics

/-- Why the reading of a file ended. -/
inductive Fault where
  | error (e : Error)
  /-- a number was to be taken from a smaller one -/
  | underflow
  /-- a table was asked for an entry that it does not have -/
  | outOfBounds
  deriving DecidableEq, Repr

/-- What is wrong with the file, if that is the fault. -/
def Fault.defect? : Fault → Option MetricsDefect
  | .error (.malformedMetrics _ d) => some d
  | _ => none

/-- A reader of metrics files. -/
abbrev FileReader (α : Type) : Type := EStateM Fault Cursor α

/-- A reader of fields. -/
def reading {α : Type} (r : Read α) : FileReader α := fun c =>
  match r c with
  | .ok a c => .ok a c
  | .error s c => .error (.error (.truncated s none)) c

/-- A computation that reads nothing. -/
def computing {α : Type} (x : Except Fault α) : FileReader α := fun c =>
  match x with
  | .ok a => .ok a c
  | .error f => .error f c

/-- What a reader gives, without the cursor. -/
def result {α : Type} (r : FileReader α) (c : Cursor) : Except Fault α :=
  match r c with
  | .ok a _ => .ok a
  | .error f _ => .error f

/-- Gives up the file of a font. -/
def refuse {α : Type} (name : String) (d : MetricsDefect) : Except Fault α := .error (.error (.malformedMetrics name d))

theorem refuse_bind {α β : Type} (name : String) (d : MetricsDefect) (f : α → Except Fault β) :
    refuse name d >>= f = refuse name d := rfl

theorem ok_bind {α β : Type} (a : α) (f : α → Except Fault β) : Except.ok a >>= f = f a := rfl

/-- What is left of `a` when `b` is taken away. -/
def difference (a b : Nat) : Except Fault Nat := if b ≤ a then .ok (a - b) else .error .underflow

theorem difference_eq {a b : Nat} (h : b ≤ a) : difference a b = .ok (a - b) := if_pos h

/-- An entry of a table. -/
def entry {α : Type} (table : Array α) (i : Nat) : Except Fault α :=
  match table[i]? with
  | some a => .ok a
  | none => .error .outOfBounds

/-! ## Sizes -/

/-- The sizes at the front of a file, in words: of the whole, of the header, the first and last character
code, of widths, heights and depths, and of all other tables together. -/
structure Sizes where
  total : Nat
  header : Nat
  first : Nat
  last : Nat
  widths : Nat
  heights : Nat
  depths : Nat
  others : Nat
  deriving DecidableEq, Repr

/-- The bytes of the twelve sizes. -/
def sizesBytes : Nat := 24

namespace Sizes

/-- The sizes that twelve numbers write. -/
def ofFields (f : Vector UInt16 12) : Sizes where
  total := f[0].toNat
  header := f[1].toNat
  first := f[2].toNat
  last := f[3].toNat
  widths := f[4].toNat
  heights := f[5].toNat
  depths := f[6].toNat
  others := f[7].toNat + f[8].toNat + f[9].toNat + f[10].toNat + f[11].toNat

/-- The twelve counts at the front of a file. -/
def read : Read Sizes := do return ofFields (← Read.u16.replicate 12)

/-- The number of entries of the character table. -/
def charCount (s : Sizes) : Nat := s.last + 1 - s.first

/-- Refuses sizes that do not fit together, or not into a file of `fileBytes` bytes. -/
def check (name : String) (s : Sizes) (fileBytes : Nat) : Except Fault Unit :=
  if s.header < 2 then refuse name (.smallHeader s.header)
  else if s.last > 255 || s.first > s.last + 1 then refuse name (.badRange s.first s.last)
  else if s.widths = 0 || s.heights = 0 || s.depths = 0 then refuse name .emptyTable
  else do
    let chars ← difference (s.last + 1) s.first
    let needed := 6 + s.header + chars + s.widths + s.heights + s.depths + s.others
    if s.total ≠ needed then refuse name (.wrongLength s.total needed)
    else if 4 * s.total > fileBytes then refuse name (.incomplete (4 * s.total) fileBytes)
    else pure ()

end Sizes

/-! ## Tables -/

/-- The check sum and the design size at the front of the header. -/
structure Header where
  checksum : UInt32
  designSize : Int32
  deriving DecidableEq, Repr

/-- Reads the header, of which the rest is passed over. -/
def Header.read (s : Sizes) : FileReader Header := do
  let checksum ← reading Read.u32
  let designSize ← reading Read.i32
  let more ← computing (difference s.header 2)
  let _ ← reading (Read.take (4 * more))
  return { checksum, designSize }

/-- The character table, with four bytes for each character, and the tables of dimensions. -/
structure Tables where
  infos : Array ByteArray
  widths : Array Int32
  heights : Array Int32
  depths : Array Int32

namespace Tables

/-- The tables that stand behind the header, one after the other. -/
def read (s : Sizes) : Read Tables := do
  let infos ← (Read.take 4).replicate s.charCount
  let widths ← Read.i32.replicate s.widths
  let heights ← Read.i32.replicate s.heights
  let depths ← Read.i32.replicate s.depths
  return { infos := infos.toArray, widths := widths.toArray, heights := heights.toArray, depths := depths.toArray }

/-- The dimensions of the character `code`, which has the entry `info`. Width index zero stands for a character that
the font lacks. -/
def char (name : String) (t : Tables) (code : Nat) (info : ByteArray) : Except Fault (Option CharMetrics) := do
  let width ← entry info.data 0
  let packed ← entry info.data 1
  let width := width.toNat
  let height := packed.toNat / 16
  let depth := packed.toNat % 16
  if width = 0 then return none
  else if width ≥ t.widths.size || height ≥ t.heights.size || depth ≥ t.depths.size then refuse name (.badIndex code)
  else
    let width ← entry t.widths width
    let height ← entry t.heights height
    let depth ← entry t.depths depth
    return some { width, height, depth }

/-- The dimensions of all characters from the code `first` on. -/
def chars (name : String) (t : Tables) (first : Nat) : Except Fault (List (Option CharMetrics)) :=
  t.infos.toList.zipIdx.mapM fun (info, i) => t.char name (first + i) info

end Tables

/-! ## Files -/

/-- Reads a file of `fileBytes` bytes; the caller gives the name. -/
def read (name : String) (fileBytes : Nat) : FileReader Metrics := do
  let s ← reading Sizes.read
  computing (s.check name fileBytes)
  let header ← Header.read s
  let tables ← reading (Tables.read s)
  let chars ← computing (tables.chars name s.first)
  return {
    name
    checksum := header.checksum
    designSize := header.designSize
    firstChar := s.first
    chars := chars.toArray }

/-- The metrics in a file, or why reading it ended. -/
def parse (name : String) (data : ByteArray) : Except Fault Metrics :=
  if data.size < sizesBytes then refuse name (.tooShort data.size)
  else result (read name data.size) (.start data)

end Dvi.Metrics
