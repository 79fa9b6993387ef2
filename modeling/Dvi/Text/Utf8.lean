/-!
# Text in bytes

Bytes are read as UTF-8 from left to right. `scan` gives one entry per character and one `none` per
**maximal ill-formed part**: the longest run of bytes that starts a character but does not finish it, or
one byte that starts none. Lossy reading writes U+FFFD for each such part. The bytes of a text are those of its
characters one after the other, and in longer characters all bytes are large.
-/

namespace Dvi

namespace Utf8

/-- Between two characters, or within one: `more` bytes are missing, the next must lie between `low` and
`high`, and the bits read so far are `code`. -/
inductive State where
  | between
  | within (more : Nat) (low high : UInt8) (code : Nat)
  deriving DecidableEq, Repr

/-- What a byte at the start of a character completes, and the state after it. The bounds of the second
byte exclude codes written with more bytes than needed, surrogates, and codes past U+10FFFF. -/
def start (b : UInt8) : List (Option Char) × State :=
  if b < 0x80 then ([some (Char.ofNat b.toNat)], .between)
  else if 0xC2 ≤ b && b ≤ 0xDF then ([], .within 1 0x80 0xBF (b.toNat % 32))
  else if 0xE0 ≤ b && b ≤ 0xEF then
    ([], .within 2 (if b == 0xE0 then 0xA0 else 0x80) (if b == 0xED then 0x9F else 0xBF) (b.toNat % 16))
  else if 0xF0 ≤ b && b ≤ 0xF4 then
    ([], .within 3 (if b == 0xF0 then 0x90 else 0x80) (if b == 0xF4 then 0x8F else 0xBF) (b.toNat % 8))
  else ([none], .between)

/-- What the next byte completes, and the state after it. A byte that cannot continue the character under
way ends an ill-formed part and starts anew. -/
def next (s : State) (b : UInt8) : List (Option Char) × State :=
  match s with
  | .between => start b
  | .within more low high code =>
    if low ≤ b && b ≤ high then
      let code := 64 * code + b.toNat % 64
      if more ≤ 1 then ([some (Char.ofNat code)], .between) else ([], .within (more - 1) 0x80 0xBF code)
    else
      (none :: (start b).1, (start b).2)

/-- The characters from a state on, with `none` for each maximal ill-formed part. -/
def scanFrom (s : State) : List UInt8 → List (Option Char)
  | [] => if s = .between then [] else [none]
  | b :: rest => (next s b).1 ++ scanFrom (next s b).2 rest

/-- The characters of a byte string, with `none` for each maximal ill-formed part. -/
def scan (bytes : List UInt8) : List (Option Char) := scanFrom .between bytes

/-- The text of a byte string; each maximal ill-formed part reads as U+FFFD. -/
def lossy (bytes : ByteArray) : String :=
  String.ofList ((scan bytes.data.toList).map (·.getD '\uFFFD'))

/-- The text of a byte string that is well-formed throughout. -/
def decode? (bytes : ByteArray) : Option String := String.fromUTF8? bytes

example : scan [0x61, 0xC3, 0xA9, 0xE2, 0x82, 0x41] = [some 'a', some 'é', none, some 'A'] := by decide
example : scan [0xED, 0xA0, 0x80] = [none, none, none] ∧ scan [0xF0, 0x9F, 0x98] = [none] := by decide

end Utf8

/-! ## The bytes of texts -/

theorem bytes_toUTF8 (s : String) : s.toUTF8.data.toList = s.toList.flatMap String.utf8EncodeChar := by
  have hencode : (String.ofList s.toList).toUTF8 = s.toList.utf8Encode := String.toByteArray_ofList
  rw [String.ofList_toList] at hencode
  rw [hencode, List.utf8Encode, List.toList_data_toByteArray]

/-- A byte of a character is that character, or one of those that only stand in longer ones. -/
theorem byte_of_mem_utf8EncodeChar {c : Char} {b : UInt8} (hb : b ∈ String.utf8EncodeChar c) :
    b.toNat = c.val.toNat ∧ b.toNat < 128 ∨ 128 ≤ b.toNat ∧ b.toNat < 245 := by
  have hvalid : c.val.toNat < 1114112 := by
    have hc := c.valid
    unfold UInt32.isValidChar Nat.isValidChar at hc
    omega
  unfold String.utf8EncodeChar at hb
  dsimp only at hb
  generalize c.val.toNat = v at hb hvalid
  split at hb
  · left
    simp only [List.mem_singleton] at hb
    rw [hb, UInt8.toNat_ofNat']
    omega
  right
  split at hb
  · simp only [List.mem_cons, List.not_mem_nil, or_false] at hb
    rcases hb with rfl | rfl <;> rw [UInt8.toNat_ofNat'] <;> omega
  split at hb
  · simp only [List.mem_cons, List.not_mem_nil, or_false] at hb
    rcases hb with rfl | rfl | rfl <;> rw [UInt8.toNat_ofNat'] <;> omega
  · simp only [List.mem_cons, List.not_mem_nil, or_false] at hb
    rcases hb with rfl | rfl | rfl | rfl <;> rw [UInt8.toNat_ofNat'] <;> omega

end Dvi
