import Dvi.Proofs.Machine.Selected
import Dvi.Proofs.Machine.Steps
import Mathlib.Control.Monad.Basic

/-!
# Brackets

A push and the pop that matches it enclose a bracket. Whatever is done inside, the position, the distances and the
stack are afterwards what they were; only the font stays as it was selected last.

* `Machine.stack_of_execute`: nothing on a page touches the stack but these two;
* `Machine.Covers`: the registers of one machine and its stack are at the bottom of another's stack.
  **`Machine.Covers.does`**: they stay there until a pop restores them;
* `Interpreter.Bracket`: steps from a push up to where the stack is as deep as before it;
* **`Interpreter.bracket_restores`**: what is left of a bracket.
-/

namespace Dvi

/-- The font that a command selects. -/
def Command.selection? : Command → Option UInt32
  | .selectFont id => some id
  | _ => none

theorem Graphics.ext_stack {g g' : Graphics} (hr : g.registers = g'.registers) (hf : g.font = g'.font)
    (hs : g.stack = g'.stack) : g = g' := by
  obtain ⟨registers, font, stack, depth, hd⟩ := g
  obtain ⟨registers', font', stack', depth', hd'⟩ := g'
  obtain rfl : registers = registers' := hr
  obtain rfl : font = font' := hf
  obtain rfl : stack = stack' := hs
  obtain rfl : depth = depth' := hd.trans hd'.symm
  rfl

namespace Machine

variable {σ : Type} [FontSource σ]

/-! ## What stands on a page -/

theorem page_of_execute {m : Machine σ} {site : Site} {c : Command} {e : Effect σ} (h : m.execute site c = .ok e)
    (hc : c.isOnPage = true) : e.machine.lastPage = m.lastPage ∧ e.machine.pageCount = m.pageCount ∧
      e.machine.graphics.font = c.selection?.or m.graphics.font := by
  cases execute_eq_ok_iff.1 h with
  | pop hg => exact ⟨rfl, rfl, (Graphics.pop_eq_some hg).2⟩
  | @defineFont f =>
    obtain ⟨_, _, _, _, hm⟩ := m.defineFont_eq f
    rw [hm]
    exact ⟨rfl, rfl, rfl⟩
  | beginPage | endPage | preamble | postamble | postPostamble => cases hc
  | _ => exact ⟨rfl, rfl, rfl⟩

/-- **A push saves the registers, a pop restores what is on top, and nothing else on a page touches the stack.** -/
theorem stack_of_execute {m : Machine σ} {site : Site} {c : Command} {e : Effect σ} (h : m.execute site c = .ok e)
    (hc : c.isOnPage = true) :
    (c = .push ∧ e.machine.graphics.stack = m.graphics.registers :: m.graphics.stack) ∨
    (c = .pop ∧ m.graphics.stack = e.machine.graphics.registers :: e.machine.graphics.stack) ∨
    e.machine.graphics.stack = m.graphics.stack := by
  cases execute_eq_ok_iff.1 h with
  | push => exact .inl ⟨rfl, rfl⟩
  | pop hg =>
    refine .inr (.inl ⟨rfl, ?_⟩)
    unfold Graphics.pop at hg
    split at hg <;> cases hg
    assumption
  | @defineFont f =>
    obtain ⟨_, _, _, _, hm⟩ := m.defineFont_eq f
    rw [hm]
    exact .inr (.inr rfl)
  | beginPage | endPage | preamble | postamble | postPostamble => cases hc
  | _ => exact .inr (.inr rfl)

/-- **What a run on a page leaves**: the page, and the font that it selected last. It tells of events only. -/
theorem Runs.page_of_isOnPage {m m' : Machine σ} {h : List Executed} (hr : m.Runs h m')
    (hc : ∀ x ∈ h, x.command.isOnPage = true) :
    m'.phase = m.phase ∧ m'.lastPage = m.lastPage ∧ m'.pageCount = m.pageCount ∧
      m'.graphics.font = (latest? (·.command.selection?) h).or m.graphics.font ∧
      ∃ events : List Event, h.flatMap Executed.signals = events.map .event := by
  induction hr with
  | nil => exact ⟨rfl, rfl, rfl, rfl, [], rfl⟩
  | @snoc h x m₁ m₂ _ hx ih =>
    have hlast : x.command.isOnPage = true := hc x (by simp)
    obtain ⟨hphase, hpage, hcount, hfont, events, htold⟩ := ih fun y hy => hc y (List.mem_append_left _ hy)
    obtain ⟨hpage', hcount', hfont'⟩ := page_of_execute hx.executed hlast
    obtain ⟨more, hmore, -⟩ := exists_events_of_execute hx.executed (fun _ _ e => by rw [e] at hlast; cases hlast)
      (fun e => by rw [e] at hlast; cases hlast)
    refine ⟨?_, hpage'.trans hpage, hcount'.trans hcount, ?_, events ++ more, ?_⟩
    · rw [hx.phase, next_of_isOnPage hlast, hphase]
    · rw [latest?_concat, Option.or_assoc, ← hfont]
      exact hfont'
    · rw [List.flatMap_append, htold, List.map_append, List.flatMap_cons, List.flatMap_nil, List.append_nil]
      exact congrArg _ hmore

/-! ## The stack inside a bracket -/

/-- The registers of `b` and its stack are at the bottom of the stack of `m`. -/
def Covers (m b : Machine σ) : Prop :=
  ∃ above, m.graphics.stack = above ++ b.graphics.registers :: b.graphics.stack

/-- The registers and the stack of `b` are those of `m`. -/
structure Restores (m b : Machine σ) : Prop where
  registers : m.graphics.registers = b.graphics.registers
  stack : m.graphics.stack = b.graphics.stack

omit [FontSource σ] in
theorem Covers.depth_lt {m b : Machine σ} (h : m.Covers b) : b.graphics.depth < m.graphics.depth := by
  obtain ⟨above, hs⟩ := h
  rw [b.graphics.depth_eq, m.graphics.depth_eq, hs, List.length_append, List.length_cons]
  omega

omit [FontSource σ] in
theorem Restores.depth_eq {m b : Machine σ} (h : m.Restores b) : m.graphics.depth = b.graphics.depth := by
  rw [b.graphics.depth_eq, m.graphics.depth_eq, h.stack]

theorem Does.covers {b m : Machine σ} {x : Executed} (hx : b.Does x m) (hc : x.command = .push) : m.Covers b := by
  have he := hx.executed
  rw [hc] at he
  have hm : _ = m := congrArg Effect.machine (Except.ok.inj he)
  rw [← hm]
  exact ⟨[], rfl⟩

theorem Does.depth_of_endPage {m m' : Machine σ} {x : Executed} (hx : m.Does x m') (hc : x.command = .endPage) :
    m.graphics.depth = 0 := by
  have he := hx.executed
  rw [hc] at he
  simp only [execute] at he
  split at he
  · assumption
  · cases he

/-- **What is covered stays so until a pop restores it.** -/
theorem Covers.does {b m m' : Machine σ} {x : Executed} (hm : m.Covers b) (hx : m.Does x m')
    (hc : x.command.isOnPage = true) : m'.Covers b ∨ (x.command = .pop ∧ m'.Restores b) := by
  obtain ⟨above, hs⟩ := hm
  obtain ⟨-, hpush⟩ | ⟨hpop, htop⟩ | hsame := stack_of_execute hx.executed hc
  · exact .inl ⟨m.graphics.registers :: above, hpush.trans (congrArg _ hs)⟩
  · -- the top is what was pushed last inside, or what `b` had
    obtain _ | ⟨r, above⟩ := above
    · obtain ⟨hr, hrest⟩ := List.cons.inj (htop.symm.trans hs)
      exact .inr ⟨hpop, hr, hrest⟩
    · exact .inl ⟨above, (List.cons.inj (htop.symm.trans hs)).2⟩
  · exact .inl ⟨above, hsame.trans hs⟩

end Machine

/-! ## Brackets -/

namespace Interpreter

variable {σ δ : Type} [FontSource σ] [Device δ]

/-- The next `n` steps on the page go from a push to the pop that matches it: all succeed, the first reads a push, and
then the stack is deeper than it was until the last. -/
structure Bracket (i : Interpreter σ δ) (n : Nat) : Prop where
  onPage : i.machine.phase = .inPage
  opens : i.machine.cursor.peek.map Opcode.ofByte = some .push
  succeeds : ∀ k < n, ∃ more, (i.steps k).step.1 = .ok more
  nonempty : 0 < n
  deeper : ∀ k < n, 0 < k → i.machine.graphics.depth < (i.steps k).machine.graphics.depth
  closes : (i.steps n).machine.graphics.depth = i.machine.graphics.depth

namespace Bracket

variable {i : Interpreter σ δ} {n : Nat}

/-- The interpreter after `k` steps, which executed `h` on the page of `i`. -/
structure Reaches (i : Interpreter σ δ) (k : Nat) (h : List Executed) : Prop where
  length : h.length = k
  runs : i.machine.Runs h (i.steps k).machine
  eq : i.steps k = i.advance h (i.steps k).machine
  onPage : ∀ x ∈ h, x.command.isOnPage = true

theorem Reaches.zero (i : Interpreter σ δ) : Reaches i 0 [] := ⟨rfl, .nil, i.advance_nil.symm, nofun⟩

theorem Reaches.succ {k : Nat} {h : List Executed} (hk : Reaches i k h) (hi : i.machine.phase = .inPage) {more : Bool}
    (hs : (i.steps k).step.1 = .ok more)
    (he : ∀ x, (i.steps k).machine.Does x (i.steps (k + 1)).machine → x.command ≠ .endPage) :
    ∃ x, (i.steps k).machine.Does x (i.steps (k + 1)).machine ∧ Reaches i (k + 1) (h ++ [x]) := by
  have hphase : (i.steps k).machine.phase = .inPage := (hk.runs.page_of_isOnPage hk.onPage).1.trans hi
  obtain ⟨x, hx, heq⟩ := exists_does_of_step (j := i.steps (k + 1)) (by rw [hphase]; rfl) (Prod.ext hs rfl)
  have hc : x.command.isOnPage = true := by
    obtain ⟨-, hc⟩ | ⟨-, hc⟩ | ⟨hp, -⟩ | ⟨hp, -⟩ := Phase.cases_of_allows hx.allowed
    · exact hc
    · exact absurd hc (he x hx)
    · rw [hphase] at hp
      cases hp
    · exact absurd hphase hp
  refine ⟨x, hx, ?_, hk.runs.snoc hx, ?_, ?_⟩
  · rw [List.length_append, hk.length, List.length_singleton]
  · rw [advance_concat i h x (i.steps k).machine, ← hk.eq]
    exact heq
  · intro y hy
    obtain hy | hy := List.mem_append.1 hy
    · exact hk.onPage y hy
    · rwa [List.mem_singleton.1 hy]

theorem covers_one (hb : i.Bracket n) : ∃ h, Reaches i 1 h ∧ (i.steps 1).machine.Covers i.machine := by
  have hpush : ∀ x, i.machine.Does x (i.steps 1).machine → x.command = .push := by
    intro x hx
    have hopen := hb.opens
    rw [Cursor.peek_of_command? hx.read, Option.map_some, Option.some_inj] at hopen
    obtain ⟨_, bs, _, ht⟩ := Cursor.command?_eq_some_iff.1 hx.read
    rw [hopen] at ht
    exact (Read.takes_pure.1 ht).2
  obtain ⟨more, hs⟩ := hb.succeeds 0 hb.nonempty
  obtain ⟨x, hx, hone⟩ := (Reaches.zero i).succ hb.onPage hs fun x hx e => by
    rw [hpush x hx] at e
    cases e
  exact ⟨_, hone, Machine.Does.covers (b := i.machine) hx (hpush x hx)⟩

theorem step (hb : i.Bracket n) {k : Nat} (hk : k < n) {h : List Executed} (hr : Reaches i k h)
    (hcovers : (i.steps k).machine.Covers i.machine) : ∃ x, Reaches i (k + 1) (h ++ [x]) ∧
      ((i.steps (k + 1)).machine.Covers i.machine ∨
        (x.command = .pop ∧ (i.steps (k + 1)).machine.Restores i.machine)) := by
  obtain ⟨more, hs⟩ := hb.succeeds k hk
  obtain ⟨x, hx, hr'⟩ := hr.succ hb.onPage hs fun x hx e => by
    have hdepth := hcovers.depth_lt
    rw [hx.depth_of_endPage e] at hdepth
    exact absurd hdepth (Nat.not_lt_zero _)
  exact ⟨x, hr', hcovers.does hx (hr'.onPage x (by simp))⟩

theorem covers (hb : i.Bracket n) {k : Nat} (hk : k + 1 < n) :
    ∃ h, Reaches i (k + 1) h ∧ (i.steps (k + 1)).machine.Covers i.machine := by
  induction k with
  | zero => exact hb.covers_one
  | succ k ih =>
    obtain ⟨h, hr, hcovers⟩ := ih (by omega)
    obtain ⟨x, hr', hcovers' | ⟨-, hrestores⟩⟩ := hb.step (by omega) hr hcovers
    · exact ⟨_, hr', hcovers'⟩
    · have hdeeper := hb.deeper (k + 2) hk (by omega)
      rw [hrestores.depth_eq] at hdeeper
      exact absurd hdeeper (Nat.lt_irrefl _)

/-- **The last step is the pop that restores it.** -/
theorem restores (hb : i.Bracket n) : ∃ h x, Reaches i n (h ++ [x]) ∧ x.command = .pop ∧
    (i.steps n).machine.Restores i.machine := by
  rcases n with _ | _ | k
  · exact absurd hb.nonempty (Nat.lt_irrefl 0)
  · -- after the push alone the stack is deeper
    obtain ⟨_, -, hcovers⟩ := hb.covers_one
    exact absurd hb.closes (Nat.ne_of_gt hcovers.depth_lt)
  · obtain ⟨h, hr, hcovers⟩ := hb.covers (Nat.lt_succ_self (k + 1))
    obtain ⟨x, hr', hcovers' | ⟨hpop, hrestores⟩⟩ := hb.step (Nat.lt_succ_self (k + 1)) hr hcovers
    · exact absurd hb.closes (Nat.ne_of_gt hcovers'.depth_lt)
    · exact ⟨h, x, hr', hpop, hrestores⟩

end Bracket

/-- **A bracket restores the registers and the whole stack.** The page is still the same, the last command was a pop,
the font is the one selected last inside, and the device was told of nothing but events. -/
theorem bracket_restores {i : Interpreter σ δ} {n : Nat} (hb : i.Bracket n) :
    (i.steps n).machine.graphics = { i.machine.graphics with
      font := (latest? (·.command.selection?) (i.machine.history.take n)).or i.machine.graphics.font } ∧
    (i.steps n).machine.phase = .inPage ∧ (i.steps n).machine.lastPage = i.machine.lastPage ∧
    (i.steps n).machine.pageCount = i.machine.pageCount ∧
    (i.machine.history.take n).length = n ∧ (i.machine.history.take n).getLast?.map (·.command) = some .pop ∧
    ∃ events : List Event, (i.steps n).device = (events.map .event).foldl Device.receive i.device := by
  obtain ⟨h, x, hr, hpop, hrestores⟩ := hb.restores
  have htake : i.machine.history.take n = h ++ [x] := by
    rw [hr.runs.history_eq]
    exact List.take_left' hr.length
  obtain ⟨hphase, hpage, hcount, hfont, events, htold⟩ := hr.runs.page_of_isOnPage hr.onPage
  rw [htake]
  refine ⟨Graphics.ext_stack hrestores.registers hfont hrestores.stack, hphase.trans hb.onPage, hpage, hcount,
    hr.length, ?_, events, ?_⟩
  · rw [List.getLast?_concat, Option.map_some, hpop]
  · rw [hr.eq, advance, htold]

end Interpreter

/-- A page with a bracket, and another one inside it: after a movement and a push, one more movement, a push, the
definition and the selection of a second font, a character, a special, a movement down, a rule, a pop, the movement
once more, and the pop that matches the first push. -/
def nestedBrackets : ByteArray :=
  let font (id letter : UInt8) : List UInt8 := [243, id, 0, 0, 0, 0, 0, 10, 0, 0, 0, 10, 0, 0, 0, 1, letter]
  let bytes := [247, 2, 1, 131, 146, 192, 28, 59, 0, 0, 0, 0, 3, 232, 0] ++ font 0 97 ++
    [139] ++ List.replicate 40 0 ++ [255, 255, 255, 255] ++ [171, 143, 5] ++
    [141, 148, 7, 141] ++ font 1 98 ++
    [172, 65, 239, 1, 120, 157, 3, 137, 0, 0, 0, 1, 0, 0, 0, 1, 142, 147, 142] ++ [140]
  ⟨bytes.toArray⟩

/-- The position is 5 before the bracket and after it; the second font stays. -/
theorem Interpreter.bracket_restores_nestedBrackets :
    let i := (Interpreter.start nestedBrackets NoFonts.mk ({} : PageCollector)).steps 5
    i.Bracket 12 ∧ i.machine.graphics.registers.h = 5 ∧ i.machine.graphics.font = some 0 ∧
      (i.steps 12).machine.graphics = { i.machine.graphics with font := some 1 } := by
  intro i
  have hb : i.Bracket 12 := {
    onPage := by decide +kernel
    opens := by decide +kernel
    succeeds := by
      have hall : ∀ k < 12, (i.steps k).step.1 = .ok true := by decide +kernel
      exact fun k hk => ⟨true, hall k hk⟩
    nonempty := by decide
    deeper := by decide +kernel
    closes := by decide +kernel }
  have hfont : (i.steps 12).machine.graphics.font = some 1 := by decide +kernel
  refine ⟨hb, by decide +kernel, by decide +kernel, (bracket_restores hb).1.trans ?_⟩
  rw [← hfont, (bracket_restores hb).1]

end Dvi
