/-!
# Buffered output

A text that is written piece by piece is collected in a buffer before it goes into a file. Until the end of
a run the file holds only what no longer had room in the buffer; a run that reads its own output file sees
just that.

* `Buffered.write`, `Buffered.writeAll`: one piece more, and several;
* `Buffered.text_write`, `Buffered.text_writeAll`: **no piece is lost or moved**;
* `Buffered.size_pending_write`: the buffer is never more than full.
-/

namespace Dvi.Tool

/-- The number of bytes that wait before they are handed on. -/
def bufferSize : Nat := 8192

/-- What has gone into the file, and what is in the buffer. -/
structure Buffered where
  saved : String := ""
  pending : String := ""

namespace Buffered

/-- All that was written. -/
def text (b : Buffered) : String := b.saved ++ b.pending

/-- The buffer emptied into the file. -/
def flush (b : Buffered) : Buffered := { saved := b.text }

/-- One piece more. A piece for which there is no room empties the buffer first; one that would fill the
buffer goes straight into the file. -/
def write (b : Buffered) (piece : String) : Buffered :=
  let b := if b.pending.utf8ByteSize + piece.utf8ByteSize > bufferSize then b.flush else b
  if piece.utf8ByteSize ≥ bufferSize then { saved := b.text ++ piece }
  else { b with pending := b.pending ++ piece }

/-- Writes pieces one after the other. -/
def writeAll (b : Buffered) (pieces : List String) : Buffered := pieces.foldl write b

@[simp] theorem text_flush (b : Buffered) : b.flush.text = b.text := by simp [flush, text]

@[simp] theorem text_write (b : Buffered) (piece : String) :
    (b.write piece).text = b.text ++ piece := by
  simp only [write]
  split <;> split <;> simp [text, flush, String.append_assoc]

@[simp] theorem text_writeAll (b : Buffered) (pieces : List String) :
    (b.writeAll pieces).text = b.text ++ String.join pieces := by
  induction pieces generalizing b with
  | nil => simp [writeAll]
  | cons p ps ih => rw [writeAll, List.foldl_cons, ← writeAll, ih, text_write]; simp [String.append_assoc]

/-- The buffer is never more than full. -/
theorem size_pending_write (b : Buffered) (piece : String) :
    (b.write piece).pending.utf8ByteSize ≤ bufferSize := by
  simp only [write]
  split <;> split <;> simp_all [flush]
  omega

end Buffered

end Dvi.Tool
