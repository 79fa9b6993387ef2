import Dvi.Stream.Cursor
import Dvi.Stream.Opcode

/-!
# The language of streams

Which byte strings are streams, without reference to a machine that reads them.

* `Opcode.Prescribes`, `Token`: a command as it is written, an opcode with the operand bytes it prescribes;
* `PageText`, `StreamText`: the syntax tree of a page and of a stream, with their tokens and bytes;
* **`StreamText.WellFormed`**: the rules. Pops match pushes within a page, fonts are defined before they are
  selected and selected on the page before a character, and the format numbers at both ends agree;
* `OnPage.concat_iff`, `FontsDefined.concat_iff`: what one more token adds to the rules.
-/

namespace Dvi

/-- The operand bytes that an opcode prescribes. -/
def Opcode.Prescribes : Opcode → List UInt8 → Prop
  | .set w, bs | .put w, bs | .right w, bs | .down w, bs | .font w, bs => bs.length = w.bytes
  | .move _ w, bs => bs.length = moveIndex w
  | .setRule, bs | .putRule, bs => bs.length = 8
  | .beginPage, bs => bs.length = 44
  | .special w, bs =>
    ∃ length payload, bs = length ++ payload ∧ length.length = w.bytes ∧ payload.length = bigEndian length
  | .fontDef w, bs =>
    ∃ id fields area name texts, bs = id ++ fields ++ [area, name] ++ texts ∧ id.length = w.bytes ∧
      fields.length = 12 ∧ texts.length = area.toNat + name.toNat
  | .preamble, bs =>
    ∃ id units length comment, bs = [id] ++ units ++ [length] ++ comment ∧ units.length = 12 ∧
      comment.length = length.toNat
  | .postamble, bs => bs.length = 28
  | .postPostamble, bs => bs.length = 5
  | .setChar _, bs | .nop, bs | .endPage, bs | .push, bs | .pop, bs | .fontNum _, bs | .undefined _, bs =>
    bs = []

namespace Opcode

/-- The opcode typesets a character. -/
def isCharacter : Opcode → Bool
  | .setChar _ | .set _ | .put _ => true
  | _ => false

/-- The opcode selects a font. -/
def isSelection : Opcode → Bool
  | .fontNum _ | .font _ => true
  | _ => false

/-- The opcodes that may stand between the first and the last command of a page. -/
def standsOnPage : Opcode → Bool
  | .setChar _ | .set _ | .setRule | .put _ | .putRule | .nop | .push | .pop | .right _ | .move _ _ | .down _
  | .fontNum _ | .font _ | .special _ | .fontDef _ => true
  | _ => false

/-- The opcodes that may stand between pages. -/
def standsBetween : Opcode → Bool
  | .nop | .fontDef _ => true
  | _ => false

end Opcode

/-- A command as it is written: an opcode and its operand bytes. -/
structure Token where
  opcode : Opcode
  operands : List UInt8
  prescribed : opcode.Prescribes operands

namespace Token

/-- The bytes of a command. -/
def bytes (t : Token) : List UInt8 := t.opcode.toByte :: t.operands

/-- The number of the font that is selected. -/
def selects? (t : Token) : Option UInt32 :=
  match t.opcode with
  | .fontNum k => some (UInt32.ofNat k.val)
  | .font _ => some (UInt32.ofNat (bigEndian t.operands))
  | _ => none

/-- The number of the font that is defined. -/
def defines? (t : Token) : Option UInt32 :=
  match t.opcode with
  | .fontDef w => some (UInt32.ofNat (bigEndian (t.operands.take w.bytes)))
  | _ => none

end Token

/-! ## Rules on sequences of tokens -/

/-- How often the registers are pushed. -/
def pushes (ts : List Token) : Nat := ts.countP (·.opcode = .push)

/-- How often the registers are popped. -/
def pops (ts : List Token) : Nat := ts.countP (·.opcode = .pop)

/-- The commands on a page, from its first up to some point. -/
structure OnPage (ts : List Token) : Prop where
  allowed : ∀ t ∈ ts, t.opcode.standsOnPage = true
  balanced : ∀ l, l <+: ts → pops l ≤ pushes l
  selected : ∀ l t, l ++ [t] <+: ts → t.opcode.isCharacter = true → ∃ u ∈ l, u.opcode.isSelection = true

/-- Every font that is selected was defined before. -/
def FontsDefined (ts : List Token) : Prop :=
  ∀ l t, l ++ [t] <+: ts → ∀ id, t.selects? = some id → ∃ u ∈ l, u.defines? = some id

theorem OnPage.nil : OnPage [] where
  allowed _ h := by cases h
  balanced l h := by
    rw [List.prefix_nil.1 h]
    exact Nat.le_refl _
  selected l t h := by simp at h

theorem OnPage.concat_iff {ts : List Token} {t : Token} :
    OnPage (ts ++ [t]) ↔ OnPage ts ∧ t.opcode.standsOnPage = true ∧
      (t.opcode = .pop → pops ts < pushes ts) ∧
      (t.opcode.isCharacter = true → ∃ u ∈ ts, u.opcode.isSelection = true) := by
  have pops_concat : pops (ts ++ [t]) = pops ts + if t.opcode = .pop then 1 else 0 := by
    simp [pops, List.countP_singleton]
  have pushes_concat : pushes (ts ++ [t]) = pushes ts + if t.opcode = .push then 1 else 0 := by
    simp [pushes, List.countP_singleton]
  refine ⟨fun h => ⟨⟨?_, ?_, ?_⟩, ?_, ?_, ?_⟩, ?_⟩
  · exact fun u hu => h.allowed u (List.mem_append_left _ hu)
  · exact fun l hl => h.balanced l (hl.trans (List.prefix_append ..))
  · exact fun l u hl => h.selected l u (hl.trans (List.prefix_append ..))
  · exact h.allowed t (by simp)
  · intro ht
    have := h.balanced _ (List.prefix_refl _)
    rw [pops_concat, pushes_concat, if_pos ht, if_neg (by simp [ht])] at this
    omega
  · exact fun ht => h.selected ts t (List.prefix_refl _) ht
  · rintro ⟨h, ht, hpop, hchar⟩
    refine ⟨fun u hu => ?_, fun l hl => ?_, fun l u hl hu => ?_⟩
    · obtain hu | hu := List.mem_append.1 hu
      · exact h.allowed u hu
      · rwa [List.mem_singleton.1 hu]
    · obtain rfl | hl := List.prefix_concat_iff.1 hl
      · have := h.balanced ts (List.prefix_refl _)
        rw [pops_concat, pushes_concat]
        split
        · have := hpop ‹_›
          omega
        · omega
      · exact h.balanced l hl
    · obtain e | hl := List.prefix_concat_iff.1 hl
      · obtain ⟨rfl, e'⟩ := List.append_inj' e rfl
        cases e'
        exact hchar hu
      · exact h.selected l u hl hu

theorem FontsDefined.nil : FontsDefined [] := fun l t h => by simp at h

theorem FontsDefined.concat_iff {ts : List Token} {t : Token} :
    FontsDefined (ts ++ [t]) ↔ FontsDefined ts ∧
      ∀ id, t.selects? = some id → ∃ u ∈ ts, u.defines? = some id := by
  refine ⟨fun h => ⟨fun l u hl => h l u (hl.trans (List.prefix_append ..)), h ts t (List.prefix_refl _)⟩, ?_⟩
  rintro ⟨h, ht⟩ l u hl
  obtain e | hl := List.prefix_concat_iff.1 hl
  · obtain ⟨rfl, e'⟩ := List.append_inj' e rfl
    cases e'
    exact ht
  · exact h l u hl

theorem FontsDefined.left {ts us : List Token} (h : FontsDefined (ts ++ us)) : FontsDefined ts :=
  fun l t hl => h l t (hl.trans (List.prefix_append ..))

/-! ## Syntax trees -/

/-- A page: the commands that begin and end it, and the commands on it. -/
structure PageText where
  bop : Token
  commands : List Token
  eop : Token

namespace PageText

/-- The commands of a page, with those at its ends. -/
def tokens (p : PageText) : List Token := p.bop :: p.commands ++ [p.eop]

/-- The page begins and ends as a page does, and restores as often as it pushes. -/
structure WellFormed (p : PageText) : Prop where
  bop : p.bop.opcode = .beginPage
  commands : OnPage p.commands
  closed : pops p.commands = pushes p.commands
  eop : p.eop.opcode = .endPage

end PageText

/-- What stands before the postamble: pages, and commands between them. -/
inductive Part where
  | command (t : Token)
  | page (p : PageText)

namespace Part

/-- The commands of a part. -/
def tokens : Part → List Token
  | .command t => [t]
  | .page p => p.tokens

/-- A command between pages may stand there, and a page is well-formed. -/
def WellFormed : Part → Prop
  | .command t => t.opcode.standsBetween = true
  | .page p => p.WellFormed

end Part

/-- A stream: its preamble, its pages, its postamble with the commands after it, its last command, and the
bytes that follow. -/
structure StreamText where
  pre : Token
  parts : List Part
  post : Token
  definitions : List Token
  postPost : Token
  trailing : List UInt8

namespace StreamText

/-- The commands of a stream. -/
def tokens (s : StreamText) : List Token :=
  s.pre :: s.parts.flatMap Part.tokens ++ s.post :: s.definitions ++ [s.postPost]

/-- The bytes of a stream. -/
def bytes (s : StreamText) : List UInt8 := s.tokens.flatMap Token.bytes ++ s.trailing

/-- Each part of the stream is what stands there, and fonts are defined before they are used. -/
structure WellFormed (s : StreamText) : Prop where
  pre : s.pre.opcode = .preamble
  parts : ∀ p ∈ s.parts, p.WellFormed
  post : s.post.opcode = .postamble
  definitions : ∀ t ∈ s.definitions, t.opcode.standsBetween = true
  postPost : s.postPost.opcode = .postPostamble
  fonts : FontsDefined s.tokens
  /-- the format number that ends the stream is that of the preamble, or 3 after 2 -/
  ids : ∃ a b, s.pre.operands.head? = some a ∧ s.postPost.operands.getLast? = some b ∧
    (a = b ∨ a = 2 ∧ b = 3)

end StreamText

end Dvi
