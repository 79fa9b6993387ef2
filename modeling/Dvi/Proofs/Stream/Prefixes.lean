import Dvi.Machine
import Dvi.Proofs.Stream.Grammar
import Mathlib.Data.List.Induction

/-!
# Beginnings of streams

The tokens of a stream one after the other: which may follow which, and in which phase a reader is after them.

* `Follows`: what a token must comply with after the tokens read before it;
* `Begins`: the tokens with which a stream can begin;
* **`begins_iff`**: tokens that lead to the end are those of a well-formed stream. A beginning is a tree whose
  last branch is not finished (`Unfinished`); conversely a tree is read part by part.
-/

namespace Dvi

/-- The token `t` may follow `ts`, of which `cs` are the commands on the page under way; it leads from one
phase to another and to other commands on the page. -/
inductive Follows (ts cs : List Token) (t : Token) : Phase → Phase → List Token → Prop
  | preamble (h : t.opcode = .preamble) : Follows ts cs t .awaitPreamble .betweenPages []
  | between (h : t.opcode.standsBetween = true) : Follows ts cs t .betweenPages .betweenPages []
  | beginPage (h : t.opcode = .beginPage) : Follows ts cs t .betweenPages .inPage []
  | onPage (h : t.opcode.standsOnPage = true) (balanced : t.opcode = .pop → pops cs < pushes cs)
    (selected : t.opcode.isCharacter = true → ∃ u ∈ cs, u.opcode.isSelection = true)
    (defined : ∀ id, t.selects? = some id → ∃ u ∈ ts, u.defines? = some id) :
    Follows ts cs t .inPage .inPage (cs ++ [t])
  | endPage (h : t.opcode = .endPage) (closed : pops cs = pushes cs) :
    Follows ts cs t .inPage .betweenPages []
  | postamble (h : t.opcode = .postamble) : Follows ts cs t .betweenPages .inPostamble []
  | definition (h : t.opcode.standsBetween = true) : Follows ts cs t .inPostamble .inPostamble []
  | postPostamble (h : t.opcode = .postPostamble) (ids : ∃ u a b, ts.head? = some u ∧
      u.operands.head? = some a ∧ t.operands.getLast? = some b ∧ (a = b ∨ a = 2 ∧ b = 3)) :
    Follows ts cs t .inPostamble .afterPostamble []

/-- A stream can begin with the tokens `ts`, of which `cs` are the commands on the page under way. -/
inductive Begins : Phase → List Token → List Token → Prop
  | nil : Begins .awaitPreamble [] []
  | snoc {p p' : Phase} {ts cs cs' : List Token} {t : Token} :
    Begins p ts cs → Follows ts cs t p p' cs' → Begins p' (ts ++ [t]) cs'

theorem Follows.unique {ts cs cs₁ cs₂ : List Token} {t : Token} {p p' : Phase}
    (h₁ : Follows ts cs t p p' cs₁) (h₂ : Follows ts cs t p p' cs₂) : cs₁ = cs₂ := by
  cases h₁ <;> cases h₂ <;> rfl

/-! ## From tokens to trees -/

namespace Opcode

theorem selects?_of_standsBetween {t : Token} (h : t.opcode.standsBetween = true) : t.selects? = none := by
  unfold Token.selects?
  split <;> simp_all [standsBetween]

end Opcode

/-- A tree that ends within a part, or after the last one. -/
def Unfinished (ts cs : List Token) : Phase → Prop
  | .awaitPreamble => ts = []
  | .betweenPages => ∃ (pre : Token) (parts : List Part), ts = pre :: parts.flatMap Part.tokens ∧ pre.opcode = .preamble ∧
      ∀ p ∈ parts, p.WellFormed
  | .inPage => ∃ (pre : Token) (parts : List Part) (bop : Token),
      ts = pre :: parts.flatMap Part.tokens ++ bop :: cs ∧ pre.opcode = .preamble ∧
      (∀ p ∈ parts, p.WellFormed) ∧ bop.opcode = .beginPage ∧ OnPage cs
  | .inPostamble => ∃ (pre : Token) (parts : List Part) (post : Token) (ds : List Token),
      ts = pre :: parts.flatMap Part.tokens ++ post :: ds ∧
      pre.opcode = .preamble ∧ (∀ p ∈ parts, p.WellFormed) ∧ post.opcode = .postamble ∧
      ∀ t ∈ ds, t.opcode.standsBetween = true
  | .afterPostamble => ∃ s : StreamText, s.tokens = ts ∧ s.WellFormed
  | .failed => False

theorem Follows.fontsDefined {ts cs cs' : List Token} {t : Token} {p p' : Phase}
    (h : Follows ts cs t p p' cs') (hts : FontsDefined ts) : FontsDefined (ts ++ [t]) := by
  refine FontsDefined.concat_iff.2 ⟨hts, fun id hid => ?_⟩
  cases h with
  | onPage _ _ _ defined => exact defined id hid
  | between h | definition h =>
    rw [Opcode.selects?_of_standsBetween h] at hid
    cases hid
  | preamble h | beginPage h | endPage h | postamble h | postPostamble h =>
    simp [Token.selects?, h] at hid

theorem wellFormed_concat {parts : List Part} {q : Part} (h : ∀ p ∈ parts, p.WellFormed)
    (hq : q.WellFormed) : ∀ p ∈ parts ++ [q], p.WellFormed := by
  intro p hp
  obtain hp | hp := List.mem_append.1 hp
  · exact h p hp
  · rwa [List.mem_singleton.1 hp]

theorem Follows.unfinished {ts cs cs' : List Token} {t : Token} {p p' : Phase}
    (h : Follows ts cs t p p' cs') (hf : FontsDefined ts) (hts : Unfinished ts cs p) :
    Unfinished (ts ++ [t]) cs' p' := by
  have hf' := h.fontsDefined hf
  cases h with
  | preamble h =>
    obtain rfl : ts = [] := hts
    exact ⟨t, [], rfl, h, fun _ hp => by cases hp⟩
  | between h =>
    obtain ⟨pre, parts, rfl, hpre, hparts⟩ := hts
    exact ⟨pre, parts ++ [.command t], by simp [Part.tokens], hpre, wellFormed_concat (q := .command t) hparts h⟩
  | beginPage h =>
    obtain ⟨pre, parts, rfl, hpre, hparts⟩ := hts
    exact ⟨pre, parts, t, rfl, hpre, hparts, h, .nil⟩
  | onPage h balanced selected _ =>
    obtain ⟨pre, parts, bop, rfl, hpre, hparts, hbop, hcs⟩ := hts
    exact ⟨pre, parts, bop, by simp, hpre, hparts, hbop, OnPage.concat_iff.2 ⟨hcs, h, balanced, selected⟩⟩
  | endPage h closed =>
    obtain ⟨pre, parts, bop, rfl, hpre, hparts, hbop, hcs⟩ := hts
    refine ⟨pre, parts ++ [.page ⟨bop, cs, t⟩], by simp [Part.tokens, PageText.tokens], hpre, ?_⟩
    exact wellFormed_concat hparts ⟨hbop, hcs, closed, h⟩
  | postamble h =>
    obtain ⟨pre, parts, rfl, hpre, hparts⟩ := hts
    exact ⟨pre, parts, t, [], rfl, hpre, hparts, h, fun _ ht => by cases ht⟩
  | definition h =>
    obtain ⟨pre, parts, post, ds, rfl, hpre, hparts, hpost, hds⟩ := hts
    refine ⟨pre, parts, post, ds ++ [t], by simp, hpre, hparts, hpost, fun u hu => ?_⟩
    obtain hu | hu := List.mem_append.1 hu
    · exact hds u hu
    · rwa [List.mem_singleton.1 hu]
  | postPostamble h ids =>
    obtain ⟨pre, parts, post, ds, rfl, hpre, hparts, hpost, hds⟩ := hts
    obtain ⟨u, a, b, hu, ha, hb, hab⟩ := ids
    cases hu
    exact ⟨⟨pre, parts, post, ds, t, []⟩, by simp [StreamText.tokens],
      ⟨hpre, hparts, hpost, hds, h, by simpa [StreamText.tokens] using hf', a, b, ha, hb, hab⟩⟩

/-- What a stream can begin with is a tree with an unfinished branch. -/
theorem Begins.unfinished {p : Phase} {ts cs : List Token} (h : Begins p ts cs) :
    FontsDefined ts ∧ Unfinished ts cs p := by
  induction h with
  | nil => exact ⟨.nil, rfl⟩
  | snoc _ ht ih => exact ⟨ht.fontsDefined ih.1, ht.unfinished ih.1 ih.2⟩

/-! ## From trees to tokens -/

theorem Begins.commands {ts : List Token} (h : Begins .inPage ts []) {cs : List Token} (hcs : OnPage cs)
    (hf : FontsDefined (ts ++ cs)) : Begins .inPage (ts ++ cs) cs := by
  induction cs using List.reverseRecOn with
  | nil => rwa [List.append_nil]
  | append_singleton cs t ih =>
    obtain ⟨hcs, ht, hpop, hchar⟩ := OnPage.concat_iff.1 hcs
    rw [← List.append_assoc] at hf ⊢
    obtain ⟨hf, hid⟩ := FontsDefined.concat_iff.1 hf
    exact .snoc (ih hcs hf) (.onPage ht hpop hchar hid)

theorem Begins.part {ts : List Token} (h : Begins .betweenPages ts []) {p : Part} (hp : p.WellFormed)
    (hf : FontsDefined (ts ++ p.tokens)) : Begins .betweenPages (ts ++ p.tokens) [] := by
  cases p with
  | command t => exact .snoc h (.between hp)
  | page p =>
    have e : ts ++ (Part.page p).tokens = ts ++ [p.bop] ++ p.commands ++ [p.eop] := by
      simp [Part.tokens, PageText.tokens]
    rw [e] at hf ⊢
    have h₁ : Begins .inPage (ts ++ [p.bop]) [] := .snoc h (.beginPage hp.bop)
    exact .snoc (h₁.commands hp.commands hf.left) (.endPage hp.eop hp.closed)

theorem Begins.parts {ts : List Token} (h : Begins .betweenPages ts []) {parts : List Part}
    (hp : ∀ p ∈ parts, p.WellFormed) (hf : FontsDefined (ts ++ parts.flatMap Part.tokens)) :
    Begins .betweenPages (ts ++ parts.flatMap Part.tokens) [] := by
  induction parts generalizing ts with
  | nil => simpa using h
  | cons p parts ih =>
    rw [List.flatMap_cons, ← List.append_assoc] at hf ⊢
    exact ih (h.part (hp p (by simp)) hf.left) (fun q hq => hp q (by simp [hq])) hf

theorem Begins.definitions {ts : List Token} (h : Begins .inPostamble ts []) {ds : List Token}
    (hds : ∀ t ∈ ds, t.opcode.standsBetween = true) : Begins .inPostamble (ts ++ ds) [] := by
  induction ds generalizing ts with
  | nil => simpa using h
  | cons t ds ih =>
    rw [← List.singleton_append, ← List.append_assoc]
    exact ih (.snoc h (.definition (hds t (by simp)))) fun u hu => hds u (by simp [hu])

/-- **The tokens that lead to the end are those of the well-formed streams.** -/
theorem begins_iff {ts : List Token} :
    (∃ cs, Begins .afterPostamble ts cs) ↔ ∃ s : StreamText, s.tokens = ts ∧ s.WellFormed := by
  refine ⟨fun ⟨cs, h⟩ => h.unfinished.2, ?_⟩
  rintro ⟨s, rfl, hs⟩
  have e : s.tokens = [s.pre] ++ s.parts.flatMap Part.tokens ++ [s.post] ++ s.definitions ++ [s.postPost] := by
    simp [StreamText.tokens]
  have hf := hs.fonts
  rw [e] at hf ⊢
  have h₁ : Begins .betweenPages [s.pre] [] := .snoc .nil (.preamble hs.pre)
  have h₂ := h₁.parts hs.parts hf.left.left.left
  have h₃ := Begins.definitions (.snoc h₂ (.postamble hs.post)) hs.definitions
  obtain ⟨a, b, ha, hb, hab⟩ := hs.ids
  exact ⟨[], .snoc h₃ (.postPostamble hs.postPost ⟨s.pre, a, b, by simp, ha, hb, hab⟩)⟩

end Dvi
