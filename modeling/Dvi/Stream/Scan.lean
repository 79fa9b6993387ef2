import Dvi.Error

/-!
# Readers with errors

A `Scan` reads from a cursor like a `Read`, but fails with an `Error`. A shortfall becomes an error that names
the command whose operands were being read, if any.
-/

namespace Dvi

/-- A reader that fails with an error; the cursor stays where the error arose. -/
abbrev Scan (α : Type) : Type := EStateM Error Cursor α

namespace Scan

/-- A reader of operands of the command with a given opcode. -/
def reading {α : Type} (opcode : Option UInt8) (r : Read α) : Scan α := fun c =>
  match r c with
  | .ok a c => .ok a c
  | .error s c => .error (.truncated s opcode) c

/-- Goes to an absolute position, which may be the end of the stream. -/
def seek (pos : Nat) : Scan Unit := fun c =>
  match c.seek pos with
  | some c => .ok () c
  | none => .error (.outOfRange pos c.data.size) c

/-- The value or the error, without the cursor. -/
def result {α : Type} (s : Scan α) (c : Cursor) : Except Error α :=
  match s c with
  | .ok a _ => .ok a
  | .error e _ => .error e

end Scan

end Dvi
