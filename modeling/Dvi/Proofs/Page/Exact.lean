import Dvi.Page.Event
import Dvi.Page.Graphics

/-!
# Positions without bounds

The meaning of the commands on a page when positions are integers of any size. Nothing here wraps.

* `Exact.Registers`, `Exact.State`, `Exact.Mark`: registers, what a page keeps, and what is drawn;
* `Exact.State.execute`: one command, which has no meaning if it pops from an empty stack, typesets without a
  font or selects a font that there is not;
* `Exact.layout`: what a sequence of commands draws, up to the first without a meaning;
* **`Exact.State.Lays.layout_append`**: commands that have a meaning are laid out before the others;
* `Exact.Mark.reduce`: positions in 32 bits.
-/

namespace Dvi

namespace Exact

/-- The six registers. -/
structure Registers where
  h : Int := 0
  v : Int := 0
  w : Int := 0
  x : Int := 0
  y : Int := 0
  z : Int := 0
  deriving DecidableEq, Repr

namespace Registers

/-- The registers with the distance of a movement stored. -/
def store (r : Registers) (d : Int) : Register → Registers
  | .w => { r with w := d }
  | .x => { r with x := d }
  | .y => { r with y := d }
  | .z => { r with z := d }

/-- Moves to the right by `w` or `x`, or down by `y` or `z`. -/
def moveBy (r : Registers) : Register → Registers
  | .w => { r with h := r.h + r.w }
  | .x => { r with h := r.h + r.x }
  | .y => { r with v := r.v + r.y }
  | .z => { r with v := r.v + r.z }

end Registers

/-- The registers, the font selected last, and the registers that were pushed, the last first. -/
structure State where
  registers : Registers := {}
  font : Option UInt32 := none
  stack : List Registers := []
  deriving DecidableEq, Repr

/-- Something drawn on a page, or a change of font. -/
inductive Mark where
  | char (placement : Placement) (h v : Int) (font code : UInt32) (width : Option Int32)
  | rule (placement : Placement) (h v : Int) (height width : Int32)
  | fontSelect (font : UInt32)
  | special (h v : Int) (payload : ByteArray)

/-- The fonts that there are, each with the widths of its characters that are known. -/
def Fonts : Type := UInt32 → Option (UInt32 → Option Int32)

namespace State

/-- The state further to the right, or where it was. -/
def advance (s : State) (placement : Placement) (d : Int) : State :=
  match placement with
  | .set => { s with registers := { s.registers with h := s.registers.h + d } }
  | .put => s

/-- A command on a page, and what it draws. -/
def execute (fonts : Fonts) (s : State) : Command → Option (State × List Mark)
  | .typeset placement code => do
    let font ← s.font
    let widths ← fonts font
    let width := widths code
    return (s.advance placement (width.elim 0 Int32.toInt),
      [.char placement s.registers.h s.registers.v font code width])
  | .rule placement height width =>
    some (s.advance placement width.toInt, [.rule placement s.registers.h s.registers.v height width])
  | .push => some ({ s with stack := s.registers :: s.stack }, [])
  | .pop =>
    match s.stack with
    | [] => none
    | r :: rest => some ({ s with registers := r, stack := rest }, [])
  | .right d => some ({ s with registers := { s.registers with h := s.registers.h + d.toInt } }, [])
  | .down d => some ({ s with registers := { s.registers with v := s.registers.v + d.toInt } }, [])
  | .move reg none => some ({ s with registers := s.registers.moveBy reg }, [])
  | .move reg (some d) => some ({ s with registers := (s.registers.store d.toInt reg).moveBy reg }, [])
  | .selectFont id => if (fonts id).isSome then some ({ s with font := some id }, [.fontSelect id]) else none
  | .special payload => some (s, [.special s.registers.h s.registers.v payload])
  | .nop | .defineFont _ => some (s, [])
  | .beginPage .. | .endPage | .preamble _ | .postamble _ | .postPostamble .. | .undefined => none

end State

/-- What commands draw, one after the other, up to the first without a meaning. -/
def layout (fonts : Fonts) (s : State) : List Command → List Mark
  | [] => []
  | c :: cs =>
    match s.execute fonts c with
    | none => []
    | some (s', marks) => marks ++ layout fonts s' cs

/-! ## Commands that all have a meaning -/

/-- The commands lead from `s` to another state and draw marks on the way. -/
inductive State.Lays (fonts : Fonts) (s : State) : List Command → State → List Mark → Prop
  | nil : Lays fonts s [] s []
  | snoc {cs : List Command} {c : Command} {s₁ s₂ : State} {ms ms' : List Mark} :
    Lays fonts s cs s₁ ms → s₁.execute fonts c = some (s₂, ms') → Lays fonts s (cs ++ [c]) s₂ (ms ++ ms')

namespace State.Lays

variable {fonts fonts' : Fonts} {s s' : State} {cs : List Command} {ms : List Mark}

/-- **What has a meaning is laid out, and then the rest.** -/
theorem layout_append (h : s.Lays fonts cs s' ms) (rest : List Command) :
    layout fonts s (cs ++ rest) = ms ++ layout fonts s' rest := by
  induction h generalizing rest with
  | nil => rfl
  | snoc _ hc ih =>
    rw [List.append_assoc, ih, List.singleton_append, layout, hc, List.append_assoc]

theorem mono (h : s.Lays fonts cs s' ms) (hf : ∀ id widths, fonts id = some widths → fonts' id = some widths) :
    s.Lays fonts' cs s' ms := by
  induction h with
  | nil => exact .nil
  | @snoc _ c s₁ _ _ _ _ hc ih =>
    refine ih.snoc ?_
    cases c with
    | typeset placement code =>
      simp only [execute, Option.bind_eq_bind, Option.bind_eq_some_iff] at hc ⊢
      obtain ⟨font, hs, widths, hw, he⟩ := hc
      exact ⟨font, hs, widths, hf font widths hw, he⟩
    | selectFont id =>
      simp only [execute] at hc ⊢
      split at hc
      · rename_i hid
        obtain ⟨widths, hid⟩ := Option.isSome_iff_exists.1 hid
        rwa [if_pos (by rw [hf id widths hid]; rfl)]
      · cases hc
    | move reg d => cases d <;> exact hc
    | _ => exact hc

end State.Lays

/-! ## In 32 bits -/

/-- The registers in 32 bits. -/
def Registers.reduce (r : Registers) : Dvi.Registers where
  h := .ofInt r.h
  v := .ofInt r.v
  w := .ofInt r.w
  x := .ofInt r.x
  y := .ofInt r.y
  z := .ofInt r.z

/-- A mark with its position in 32 bits. -/
def Mark.reduce : Mark → Event
  | .char placement h v font code width => .char placement (.ofInt h) (.ofInt v) font code width
  | .rule placement h v height width => .rule placement (.ofInt h) (.ofInt v) height width
  | .fontSelect font => .fontSelect font
  | .special h v payload => .special (.ofInt h) (.ofInt v) payload

namespace Registers

theorem reduce_store (r : Registers) (d : Int32) (reg : Register) :
    (r.store d.toInt reg).reduce = r.reduce.set reg d := by
  cases reg <;> simp only [store, reduce, Dvi.Registers.set, Int32.ofInt_toInt]

theorem reduce_moveBy (r : Registers) (reg : Register) : (r.moveBy reg).reduce = r.reduce.moveBy reg := by
  cases reg <;> simp only [moveBy, reduce, Dvi.Registers.moveBy, Dvi.Registers.moveRight,
    Dvi.Registers.moveDown, Dvi.Registers.get, Int32.ofInt_add]

end Registers

end Exact

end Dvi
