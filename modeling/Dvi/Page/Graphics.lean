import Dvi.Stream.Opcode

/-!
# Positions on a page

Two registers hold the position, four more a distance each. Distances are in the units of the stream and
wrap around at 32 bits.

* `Registers`, `Graphics`: the registers, the selected font and the stack;
* `Graphics.pop`: **restores the registers that were pushed last, and only those**: the font stays.
-/

namespace Dvi

/-- The position and the four distances. -/
structure Registers where
  h : Int32 := 0
  v : Int32 := 0
  w : Int32 := 0
  x : Int32 := 0
  y : Int32 := 0
  z : Int32 := 0
  deriving DecidableEq, Repr, Inhabited

namespace Registers

/-- Moves the position to the right. -/
def moveRight (r : Registers) (d : Int32) : Registers := { r with h := r.h + d }

/-- Moves the position down. -/
def moveDown (r : Registers) (d : Int32) : Registers := { r with v := r.v + d }

/-- The distance in a register. -/
def get (r : Registers) : Register → Int32
  | .w => r.w
  | .x => r.x
  | .y => r.y
  | .z => r.z

/-- Sets the distance in a register. -/
def set (r : Registers) (reg : Register) (d : Int32) : Registers :=
  match reg with
  | .w => { r with w := d }
  | .x => { r with x := d }
  | .y => { r with y := d }
  | .z => { r with z := d }

/-- Moves by the distance in a register: to the right by the first two, down by the others. -/
def moveBy (r : Registers) (reg : Register) : Registers :=
  match reg with
  | .w | .x => r.moveRight (r.get reg)
  | .y | .z => r.moveDown (r.get reg)

end Registers

/-- The registers, the selected font, and the registers that were pushed, the last first. -/
structure Graphics where
  registers : Registers := {}
  font : Option UInt32 := none
  stack : List Registers := []
  /-- how many times registers were pushed and not yet restored -/
  depth : Nat := 0
  depth_eq : depth = stack.length := by simp
  deriving DecidableEq, Repr

namespace Graphics

/-- The registers at zero, no font, and nothing on the stack. -/
def blank : Graphics := {}

@[simp] theorem font_blank : blank.font = none := rfl

/-- Puts the registers on the stack. The font is not among them. -/
def push (g : Graphics) : Graphics :=
  { g with
    stack := g.registers :: g.stack
    depth := g.depth + 1
    depth_eq := by simp [g.depth_eq] }

/-- The registers that were pushed last are restored; none if nothing is on the stack. -/
def pop (g : Graphics) : Option Graphics :=
  match _h : g.stack with
  | [] => none
  | r :: rest =>
    some { g with
      registers := r
      stack := rest
      depth := g.depth - 1
      depth_eq := by simp [g.depth_eq, _h] }

/-- Moves the position to the right. The stack is left alone. -/
def moveRight (g : Graphics) (d : Int32) : Graphics := { g with registers := g.registers.moveRight d }

/-- Moves the position down. The stack is left alone. -/
def moveDown (g : Graphics) (d : Int32) : Graphics := { g with registers := g.registers.moveDown d }

/-- Sets a register, if a distance is given, and moves by it. -/
def move (g : Graphics) (reg : Register) (d : Option Int32) : Graphics :=
  let r := match d with
    | none => g.registers
    | some d => g.registers.set reg d
  { g with registers := r.moveBy reg }

theorem pop_push (g : Graphics) : g.push.pop = some g := rfl

theorem pop_eq_none_iff (g : Graphics) : g.pop = none ↔ g.depth = 0 := by
  rw [g.depth_eq, List.length_eq_zero_iff]
  unfold pop
  split <;> simp_all

/-- Popping leaves the font alone and takes one from the stack. -/
theorem pop_eq_some {g g' : Graphics} (h : g.pop = some g') : g'.depth + 1 = g.depth ∧ g'.font = g.font := by
  have hd : g.depth ≠ 0 := fun e => by simp [(pop_eq_none_iff g).2 e] at h
  unfold pop at h
  split at h
  · cases h
  · cases h
    exact ⟨Nat.sub_add_cancel (Nat.pos_of_ne_zero hd), rfl⟩

end Graphics

end Dvi
