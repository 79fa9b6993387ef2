/-!
# Opcodes

Every byte of a stream that stands where a command begins is one opcode. Commands with an operand of one to
four bytes have an opcode for each width.

* `Opcode.ofByte`, `Opcode.toByte`: **the two are inverse to each other**, so opcodes are exactly the 256 bytes;
* `Opcode.mnemonic`: the name of an opcode in listings.
-/

namespace Dvi

/-- The number of bytes of an operand. -/
inductive Width where
  | one
  | two
  | three
  | four
  deriving DecidableEq, Repr

namespace Width

/-- The number of bytes of an operand. -/
def bytes : Width → Nat
  | .one => 1
  | .two => 2
  | .three => 3
  | .four => 4

/-- The width after `i` narrower ones. -/
def nth (i : Nat) : Width :=
  match i with
  | 0 => .one
  | 1 => .two
  | 2 => .three
  | _ => .four

/-- The width of an operand of `n` bytes. -/
def ofBytes (n : Nat) : Option Width := if 1 ≤ n && n ≤ 4 then some (nth (n - 1)) else none

end Width

/-- The four registers that hold a distance. -/
inductive Register where
  | w
  | x
  | y
  | z
  deriving DecidableEq, Repr

/-- The letter of a register in the names of commands. -/
def Register.letter : Register → String
  | .w => "w"
  | .x => "x"
  | .y => "y"
  | .z => "z"

/-- The meaning of the first byte of a command. -/
inductive Opcode where
  /-- typeset a character with a code below 128 -/
  | setChar (code : Fin 128)
  /-- typeset a character and move past it -/
  | set (w : Width)
  | setRule
  /-- typeset a character in place -/
  | put (w : Width)
  | putRule
  | nop
  | beginPage
  | endPage
  | push
  | pop
  | right (w : Width)
  /-- move by a register, which an operand sets first if there is one -/
  | move (r : Register) (w : Option Width)
  | down (w : Width)
  /-- select a font with a number below 64 -/
  | fontNum (id : Fin 64)
  | font (w : Width)
  | special (w : Width)
  | fontDef (w : Width)
  | preamble
  | postamble
  | postPostamble
  | undefined (index : Fin 6)
  deriving DecidableEq, Repr

namespace Opcode

/-- The width in a move by register after `i` others, of which the first has no operand. -/
def moveWidth : Nat → Option Width
  | 0 => none
  | i + 1 => some (.nth i)

/-- The place of a move among the opcodes of its register: the move without operand is the first. -/
def moveIndex : Option Width → Nat
  | none => 0
  | some w => w.bytes

/-- The opcode of a byte. The ranges are in the order of the bytes. -/
def ofByte (b : UInt8) : Opcode :=
  let n := b.toNat
  if n < 128 then .setChar (Fin.ofNat 128 n)
  else if n < 132 then .set (.nth (n - 128))
  else if n = 132 then .setRule
  else if n < 137 then .put (.nth (n - 133))
  else if n = 137 then .putRule
  else if n = 138 then .nop
  else if n = 139 then .beginPage
  else if n = 140 then .endPage
  else if n = 141 then .push
  else if n = 142 then .pop
  else if n < 147 then .right (.nth (n - 143))
  else if n < 152 then .move .w (moveWidth (n - 147))
  else if n < 157 then .move .x (moveWidth (n - 152))
  else if n < 161 then .down (.nth (n - 157))
  else if n < 166 then .move .y (moveWidth (n - 161))
  else if n < 171 then .move .z (moveWidth (n - 166))
  else if n < 235 then .fontNum (Fin.ofNat 64 (n - 171))
  else if n < 239 then .font (.nth (n - 235))
  else if n < 243 then .special (.nth (n - 239))
  else if n < 247 then .fontDef (.nth (n - 243))
  else if n = 247 then .preamble
  else if n = 248 then .postamble
  else if n = 249 then .postPostamble
  else .undefined (Fin.ofNat 6 (n - 250))

/-- The byte of an opcode, as a number. -/
def code : Opcode → Nat
  | .setChar c => c
  | .set w => 127 + w.bytes
  | .setRule => 132
  | .put w => 132 + w.bytes
  | .putRule => 137
  | .nop => 138
  | .beginPage => 139
  | .endPage => 140
  | .push => 141
  | .pop => 142
  | .right w => 142 + w.bytes
  | .move .w w => 147 + moveIndex w
  | .move .x w => 152 + moveIndex w
  | .down w => 156 + w.bytes
  | .move .y w => 161 + moveIndex w
  | .move .z w => 166 + moveIndex w
  | .fontNum k => 171 + k
  | .font w => 234 + w.bytes
  | .special w => 238 + w.bytes
  | .fontDef w => 242 + w.bytes
  | .preamble => 247
  | .postamble => 248
  | .postPostamble => 249
  | .undefined i => 250 + i

/-- The byte of an opcode. -/
def toByte (o : Opcode) : UInt8 := UInt8.ofNat o.code

/-- The byte that fills a stream after its last command. -/
def padding : UInt8 := 223

/-- Format number of a stream, and the number that may end one with that number in its preamble. -/
def formatId : UInt8 := 2

/-- The format number at the end of some streams whose preamble has the usual one. -/
def variantFormatId : UInt8 := 3

/-- The name of an opcode in listings. -/
def mnemonic : Opcode → String
  | .setChar c => "set_char_" ++ toString c.val
  | .set w => "set" ++ toString w.bytes
  | .setRule => "set_rule"
  | .put w => "put" ++ toString w.bytes
  | .putRule => "put_rule"
  | .nop => "nop"
  | .beginPage => "bop"
  | .endPage => "eop"
  | .push => "push"
  | .pop => "pop"
  | .right w => "right" ++ toString w.bytes
  | .move r w => r.letter ++ toString (moveIndex w)
  | .down w => "down" ++ toString w.bytes
  | .fontNum k => "fnt_num_" ++ toString k.val
  | .font w => "fnt" ++ toString w.bytes
  | .special w => "xxx" ++ toString w.bytes
  | .fontDef w => "fnt_def" ++ toString w.bytes
  | .preamble => "pre"
  | .postamble => "post"
  | .postPostamble => "post_post"
  | .undefined i => "undefined_" ++ toString (250 + i.val)

theorem toByte_ofByte (b : UInt8) : (ofByte b).toByte = b := by
  have h : ∀ n : Fin 256, (ofByte (UInt8.ofNat n)).toByte = UInt8.ofNat n := by decide +kernel
  simpa using h ⟨b.toNat, b.toNat_lt⟩

theorem ofByte_toByte (o : Opcode) : ofByte o.toByte = o := by
  have setChar : ∀ c : Fin 128, ofByte (setChar c).toByte = .setChar c := by decide +kernel
  have fontNum : ∀ k : Fin 64, ofByte (fontNum k).toByte = .fontNum k := by decide +kernel
  have undefined : ∀ i : Fin 6, ofByte (undefined i).toByte = .undefined i := by decide +kernel
  cases o with
  | setChar c => exact setChar c
  | fontNum k => exact fontNum k
  | undefined i => exact undefined i
  | move r w => cases r <;> rcases w with _ | w <;> (try cases w) <;> decide +kernel
  | set w => cases w <;> decide +kernel
  | put w => cases w <;> decide +kernel
  | right w => cases w <;> decide +kernel
  | down w => cases w <;> decide +kernel
  | font w => cases w <;> decide +kernel
  | special w => cases w <;> decide +kernel
  | fontDef w => cases w <;> decide +kernel
  | _ => decide +kernel

end Opcode

end Dvi
