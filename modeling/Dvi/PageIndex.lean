import Dvi.Trailer

/-!
# The pages of a stream, from its end

The postamble points to the last page, and each page to the one before it. A `PageIndex` holds the offsets of
all pages without the pages having been read.

* `PageIndex.chain`: the offsets met on the way back. **Each is less than the one before**, so the way ends;
* `PageIndex.build`: the index of a stream.
-/

namespace Dvi

/-- The offsets of the pages of a stream in their order, and its end. -/
structure PageIndex where
  offsets : Array Nat
  trailer : Trailer
  deriving DecidableEq

namespace PageIndex

/-- From the opcode of a page to its back pointer: the opcode and ten counts. -/
def backPointerOffset : Nat := 1 + 10 * 4

/-- The back pointer of the page at an offset. -/
def backPointer (data : ByteArray) (offset : Nat) : Except Error Int32 :=
  let read : Scan Int32 := do
    Scan.seek (offset + backPointerOffset)
    Scan.reading none Read.i32
  read.result (.start data)

/-- The offsets of the pages from the one at `pointer` back to the first, all of them below `limit`. A
negative pointer ends the chain. -/
def chain (data : ByteArray) (limit : Nat) (pointer : Int32) : Except Error (List Nat) :=
  if pointer < 0 then .ok []
  else
    let offset := pointer.toInt.toNat
    let opcode := (data[offset]?).getD 0
    if _h : offset < limit then
      if Opcode.ofByte opcode = .beginPage then
        match backPointer data offset with
        | .ok previous => (chain data offset previous).map (offset :: ·)
        | .error e => .error e
      else .error (.unexpectedOpcode ⟨offset, opcode⟩)
    else .error (.unexpectedOpcode ⟨offset, opcode⟩)
termination_by limit

/-- The index of a stream, and what is wrong with its end. -/
def build (data : ByteArray) : Except Error PageIndex × List Warning :=
  let warnings := Trailer.warnings data
  match Trailer.locate.result (.start data) with
  | .error e => (.error e, warnings)
  | .ok trailer =>
    match chain data trailer.postamble.offset trailer.postamble.lastPage with
    | .error e => (.error e, warnings)
    | .ok back =>
      let declared := trailer.postamble.totalPages
      let found := back.length
      (.ok { offsets := back.reverse.toArray, trailer },
        if found = declared.toNat then warnings else warnings ++ [.chainLength declared found])

/-- The number of pages. -/
def size (x : PageIndex) : Nat := x.offsets.size

/-- The offset of page `n`, counted from zero. -/
def offset? (x : PageIndex) (n : Nat) : Option Nat := x.offsets[n]?

end PageIndex

end Dvi
