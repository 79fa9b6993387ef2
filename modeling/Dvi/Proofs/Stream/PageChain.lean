import Dvi.Proofs.Stream.Trailer
import Dvi.Stream.Offset
import Mathlib.Data.List.Chain

/-!
# The way back from the postamble

Pages are found by following pointers that anything may have written. They may lead to no page, or back to a page
that has been met before. A walk along them ends all the same, since each page must be below the one before.

* `Trailer.FontTurn`, `PageIndex.Turn`: one turn of each of the two loops. Each turn leaves the loop less to do;
* `Exhausts`: the turns of a loop, until none is left; `Trailer.exists_turns_readFonts`,
  `PageIndex.exists_turns_chain`: what the loops give is what these turns find;
* `PageIndex.IsBackChain`: the pages that are met until a pointer is negative; **`PageIndex.chain_eq_ok_iff`**: these
  are found, and without them the walk fails;
* **`PageIndex.build_walks_back`**: so it is with the index of any byte string, in which the pages go forward again.
-/

namespace Dvi

open Read

/-- Where a measure falls with every step, it bounds the number of steps. -/
theorem length_le_of_isChain {α : Type} {r : α → α → Prop} {measure : α → Nat}
    (h : ∀ ⦃a b⦄, r a b → measure b < measure a) {a : α} {as : List α} (hchain : (a :: as).IsChain r) :
    as.length ≤ measure a := by
  induction as generalizing a with
  | nil => exact Nat.zero_le _
  | cons b as ih =>
    obtain ⟨hab, hrest⟩ := List.isChain_cons_cons.1 hchain
    have hlt := h hab
    have hle := ih hrest
    rw [List.length_cons]
    omega

/-- The turns of a loop that starts at `a`, until none is left. -/
structure Exhausts {α : Type} (turn : α → α → Prop) (a : α) (turns : List α) : Prop where
  chain : (a :: turns).IsChain turn
  last : ∀ b, ¬ turn (turns.getLastD a) b

section

variable {α : Type} {turn : α → α → Prop} {a b : α} {turns : List α}

theorem exhausts_nil (h : ∀ b, ¬ turn a b) : Exhausts turn a [] where
  chain := List.isChain_singleton a
  last := h

theorem Exhausts.cons (hturn : turn a b) (h : Exhausts turn b turns) : Exhausts turn a (b :: turns) where
  chain := h.chain.cons_cons hturn
  last := by
    rw [List.getLastD_cons]
    exact h.last

end

namespace Trailer

/-- One turn of the loop that reads the fonts behind a postamble: a definition, or a command without effect. -/
def FontTurn (c c' : Cursor) : Prop :=
  ∃ byte c₁, u8 c = .ok byte c₁ ∧
    ((∃ w d, Opcode.ofByte byte = .fontDef w ∧ FontDefinition.read w c.pos c₁ = .ok d c') ∨
      Opcode.ofByte byte = .nop ∧ c' = c₁)

theorem FontTurn.remaining_lt {c c' : Cursor} (h : FontTurn c c') : c'.remaining < c.remaining := by
  obtain ⟨byte, c₁, hbyte, ⟨w, d, -, hread⟩ | ⟨-, rfl⟩⟩ := h
  · have hone := remaining_of_u8 hbyte
    have hle := (FontDefinition.forward_read w c.pos).remaining_le c₁
    rw [after, hread] at hle
    dsimp only at hle
    omega
  · have hone := remaining_of_u8 hbyte
    omega

/-- A result with the fonts of earlier turns. -/
def withFonts (before : List FontDefinition) :
    EStateM.Result Error Cursor (List FontDefinition) → EStateM.Result Error Cursor (List FontDefinition)
  | .ok ds c => .ok (before ++ ds) c
  | .error e c => .error e c

theorem withFonts_nil (r : EStateM.Result Error Cursor (List FontDefinition)) : withFonts [] r = r := by
  cases r <;> rfl

theorem withFonts_append (before ds : List FontDefinition) (r : EStateM.Result Error Cursor (List FontDefinition)) :
    withFonts (before ++ ds) r = withFonts before (withFonts ds r) := by
  cases r <;> simp [withFonts]

/-- The loop ends without a font from here. -/
def EndsAt (c : Cursor) : Prop := (∃ c', readFonts c = .ok [] c') ∨ ∃ e c', readFonts c = .error e c'

theorem readFonts_cases (c : Cursor) :
    (∃ c' before, FontTurn c c' ∧ readFonts c = withFonts before (readFonts c')) ∨
    (∀ c', ¬ FontTurn c c') ∧ EndsAt c := by
  rw [EndsAt]
  rw [readFonts]
  split
  · rename_i hbyte
    exact .inr ⟨by simp [FontTurn, hbyte], .inr ⟨_, _, rfl⟩⟩
  rename_i byte c₁ hbyte
  split
  · rename_i w hop
    split
    · rename_i hread
      exact .inr ⟨by simp [FontTurn, hbyte, hop, hread], .inr ⟨_, _, rfl⟩⟩
    · rename_i d c₂ hread
      refine .inl ⟨c₂, [d], ⟨byte, c₁, hbyte, .inl ⟨w, d, hop, hread⟩⟩, ?_⟩
      rcases readFonts c₂ with ⟨ds, c₃⟩ | ⟨e, c₃⟩ <;> rfl
  · rename_i hop
    refine .inl ⟨c₁, [], ⟨byte, c₁, hbyte, .inr ⟨hop, rfl⟩⟩, ?_⟩
    rcases readFonts c₁ with ⟨ds, c₃⟩ | ⟨e, c₃⟩ <;> rfl
  · rename_i hop
    exact .inr ⟨by simp [FontTurn, hbyte, hop], .inl ⟨_, rfl⟩⟩
  · rename_i hfont hnop hpost
    refine .inr ⟨?_, .inr ⟨_, _, rfl⟩⟩
    rintro c' ⟨byte', c₁', hbyte', ⟨w, -, hop, -⟩ | ⟨hop, -⟩⟩ <;> cases hbyte.symm.trans hbyte'
    · exact hfont w hop
    · exact hnop hop

/-- The loop gives the fonts of its turns, and ends or fails behind the last of them. -/
theorem exists_turns_readFonts (c : Cursor) : ∃ turns before, Exhausts FontTurn c turns ∧
    EndsAt (turns.getLastD c) ∧ readFonts c = withFonts before (readFonts (turns.getLastD c)) := by
  induction hleft : c.remaining using Nat.strongRecOn generalizing c with
  | _ left ih =>
    obtain ⟨c', before, hturn, hfonts⟩ | ⟨hno, hends⟩ := readFonts_cases c
    · obtain ⟨turns, later, hturns, hends, hrest⟩ := ih c'.remaining (hleft ▸ hturn.remaining_lt) c' rfl
      refine ⟨c' :: turns, before ++ later, hturns.cons hturn, ?_, ?_⟩ <;> rw [List.getLastD_cons]
      · exact hends
      · rw [hfonts, hrest, withFonts_append]
    · exact ⟨[], [], exhausts_nil hno, hends, (withFonts_nil _).symm⟩

end Trailer

namespace PageIndex

variable {data : ByteArray} {limit o : Nat} {pointer previous : Int32} {met : List Nat}

/-! ## Pages -/

theorem beginPage_iff : Opcode.ofByte ((data[o]?).getD 0) = .beginPage ↔ data[o]? = some 139 :=
  Opcode.ofByte_getD_eq_iff (by decide)

/-- Ten counts stand between the opcode of a page and its back pointer. -/
theorem backPointer_eq_result (h : o + 41 ≤ data.size) :
    backPointer data o = (Scan.reading none i32).result ⟨data, o + 41, h⟩ := by
  let c : Cursor := ⟨data, o + 41, h⟩
  have hseek : Scan.seek (o + backPointerOffset) (.start data) = .ok () c := @Scan.seek_eq (.start data) c rfl
  simp only [backPointer, Scan.result, Scan.bind_eq hseek]
  rfl

theorem backPointer_eq_ok (h : o + 45 ≤ data.size) : backPointer data o = .ok (wordAt data (o + 41)) := by
  obtain ⟨c, hword, -⟩ := findsAt_i32 (show o + 41 + 4 ≤ data.size by omega) ⟨data, o + 41, by omega⟩ rfl rfl
  rw [backPointer_eq_result (by omega), Scan.result, Scan.reading, hword]

theorem le_of_backPointer (h : backPointer data o = .ok previous) : o + 45 ≤ data.size := by
  by_cases hseek : o + 41 ≤ data.size
  · rw [backPointer_eq_result hseek, Scan.result, Scan.reading] at h
    rcases hword : i32 ⟨data, o + 41, hseek⟩ with ⟨p, c⟩ | ⟨s, c⟩
    · obtain ⟨bs, hpasses, htakes⟩ := Local.takes hword
      have hpos := hpasses.pos
      have hle := c.pos_le
      rw [hpasses.data] at hle
      rw [field_i32.length_eq htakes] at hpos
      dsimp only at hpos hle
      omega
    · rw [hword] at h
      cases h
  · have houtside : (Cursor.start data).seek (o + backPointerOffset) = none := dif_neg hseek
    simp only [backPointer, Scan.result, Bind.bind, EStateM.bind, Scan.seek, houtside] at h
    cases h

/-! ## The walk -/

/-- One turn of the walk from a page to the one before it. Each page is to be below the limit, which comes down with
them. -/
structure Turn (data : ByteArray) (s s' : Nat × Int32) : Prop where
  pointer : ¬ s.2 < 0
  offset : s'.1 = s.2.toInt.toNat
  below : s'.1 < s.1
  opcode : Opcode.ofByte ((data[s'.1]?).getD 0) = .beginPage
  back : backPointer data s'.1 = .ok s'.2

theorem turn_iff : Turn data (limit, pointer) (o, previous) ↔
    pointer.toInt = o ∧ o < limit ∧ data[o]? = some 139 ∧ o + 45 ≤ data.size ∧ wordAt data (o + 41) = previous := by
  have hoffset : ¬ pointer < 0 ∧ o = pointer.toInt.toNat ↔ pointer.toInt = o := by
    rw [Int32.lt_iff_toInt_lt, Int32.toInt_zero]
    omega
  constructor
  · rintro ⟨hpointer, hto, hlt, hop, hback⟩
    have hsize := le_of_backPointer hback
    have hword := Except.ok.inj ((backPointer_eq_ok hsize).symm.trans hback)
    exact ⟨hoffset.1 ⟨hpointer, hto⟩, hlt, beginPage_iff.1 hop, hsize, hword⟩
  · rintro ⟨hto, hlt, hop, hsize, rfl⟩
    obtain ⟨hpointer, hto⟩ := hoffset.2 hto
    exact ⟨hpointer, hto, hlt, beginPage_iff.2 hop, backPointer_eq_ok hsize⟩

/-- **The walk ends at a negative pointer, takes a turn, or fails where there is none.** -/
theorem chain_cases (data : ByteArray) (limit : Nat) (pointer : Int32) :
    pointer < 0 ∧ chain data limit pointer = .ok [] ∨
    (∃ s, Turn data (limit, pointer) s ∧ chain data limit pointer = (chain data s.1 s.2).map (s.1 :: ·)) ∨
    ¬ pointer < 0 ∧ (∀ s, ¬ Turn data (limit, pointer) s) ∧ ∃ e, chain data limit pointer = .error e := by
  rw [chain]
  split
  · rename_i hneg
    exact .inl ⟨hneg, rfl⟩
  rename_i hpointer
  refine .inr ?_
  dsimp only
  split
  · rename_i hlt
    split
    · rename_i hop
      cases hback : backPointer data pointer.toInt.toNat with
      | ok previous => exact .inl ⟨(_, previous), ⟨hpointer, rfl, hlt, hop, hback⟩, rfl⟩
      | error e =>
        refine .inr ⟨hpointer, ?_, e, rfl⟩
        rintro ⟨o, previous⟩ ⟨-, rfl, -, -, hback'⟩
        cases hback.symm.trans hback'
    · rename_i hop
      refine .inr ⟨hpointer, ?_, _, rfl⟩
      rintro ⟨o, previous⟩ ⟨-, rfl, -, hop', -⟩
      exact hop hop'
  · rename_i hlt
    refine .inr ⟨hpointer, ?_, _, rfl⟩
    rintro ⟨o, previous⟩ ⟨-, rfl, hlt', -⟩
    exact hlt hlt'

/-- **The walk finds the pages of its turns** if these end at a negative pointer, and fails if they do not. -/
theorem exists_turns_chain (data : ByteArray) (limit : Nat) (pointer : Int32) :
    ∃ turns, Exhausts (Turn data) (limit, pointer) turns ∧
      ((turns.getLastD (limit, pointer)).2 < 0 → chain data limit pointer = .ok (turns.map Prod.fst)) ∧
      (¬ (turns.getLastD (limit, pointer)).2 < 0 → ∃ e, chain data limit pointer = .error e) := by
  induction limit using Nat.strongRecOn generalizing pointer with
  | _ limit ih =>
    obtain ⟨hneg, hchain⟩ | ⟨⟨o, previous⟩, hturn, hchain⟩ | ⟨hpointer, hno, hchain⟩ := chain_cases data limit pointer
    · exact ⟨[], exhausts_nil fun _ hturn => hturn.pointer hneg, fun _ => hchain, fun h => absurd hneg h⟩
    · obtain ⟨turns, hturns, hfound, hfails⟩ := ih o hturn.below previous
      refine ⟨(o, previous) :: turns, hturns.cons hturn, ?_, ?_⟩ <;> rw [List.getLastD_cons, hchain] <;> intro hlast
      · rw [hfound hlast]
        rfl
      · obtain ⟨e, he⟩ := hfails hlast
        exact ⟨e, by rw [he]; rfl⟩
    · exact ⟨[], exhausts_nil hno, fun h => absurd h hpointer, fun _ => hchain⟩

/-- The pages at `met` are met on the way back from the pointer `first`, until a pointer is negative. -/
structure IsBackChain (data : ByteArray) (limit : Nat) (first : Int32) (met : List Nat) : Prop where
  /-- each pointer leads to the next page, and the last to none -/
  pointers : ∃ last < 0, (first :: met.map fun o => wordAt data (o + 41)).map (·.toInt) = met.map Int.ofNat ++ [last]
  /-- each page is below the one before, and all of them below the limit -/
  falling : (limit :: met).Pairwise (· > ·)
  opcodes : ∀ o ∈ met, data[o]? = some 139
  inside : ∀ o ∈ met, o + 41 + 4 ≤ data.size

theorem isBackChain_nil_iff : IsBackChain data limit pointer [] ↔ pointer < 0 := by
  rw [Int32.lt_iff_toInt_lt, Int32.toInt_zero]
  constructor
  · rintro ⟨⟨last, hlast, hpointers⟩, -, -, -⟩
    simp only [List.map_cons, List.map_nil, List.nil_append, List.cons.injEq, and_true] at hpointers
    rwa [hpointers]
  · intro hneg
    exact ⟨⟨_, hneg, rfl⟩, by simp, by simp, by simp⟩

theorem isBackChain_cons_iff : IsBackChain data limit pointer (o :: met) ↔
    Turn data (limit, pointer) (o, wordAt data (o + 41)) ∧ IsBackChain data o (wordAt data (o + 41)) met := by
  rw [turn_iff]
  constructor
  · rintro ⟨⟨last, hlast, hpointers⟩, hfalling, hopcodes, hinside⟩
    simp only [List.map_cons, List.cons_append, List.cons.injEq] at hpointers
    simp only [List.pairwise_cons, List.mem_cons, forall_eq_or_imp] at hfalling hopcodes hinside
    refine ⟨⟨hpointers.1, hfalling.1.1, hopcodes.1, hinside.1, rfl⟩, ⟨last, hlast, ?_⟩, ?_, hopcodes.2, hinside.2⟩
    · simpa using hpointers.2
    · simpa using hfalling.2
  · rintro ⟨⟨hpointer, hlt, hop, hsize, -⟩, ⟨last, hlast, hpointers⟩, hfalling, hopcodes, hinside⟩
    have hfalling' := List.pairwise_cons.1 hfalling
    refine ⟨⟨last, hlast, ?_⟩, ?_, ?_, ?_⟩
    · simpa [hpointer] using hpointers
    · refine List.pairwise_cons.2 ⟨?_, hfalling⟩
      simp only [List.mem_cons, forall_eq_or_imp]
      exact ⟨hlt, fun o' ho' => Nat.lt_trans (hfalling'.1 o' ho') hlt⟩
    · simpa using ⟨hop, hopcodes⟩
    · simpa using ⟨hsize, hinside⟩

theorem Turn.isBackChain_iff (h : Turn data (limit, pointer) (o, previous)) :
    IsBackChain data limit pointer met ↔ ∃ met', IsBackChain data o previous met' ∧ o :: met' = met := by
  obtain ⟨hto, -, -, -, hword⟩ := turn_iff.1 h
  cases met with
  | nil => simp [isBackChain_nil_iff, h.pointer]
  | cons o' met =>
    rw [isBackChain_cons_iff]
    constructor
    · rintro ⟨hturn, hmet⟩
      obtain rfl : o = o' := Int.ofNat.inj (hto.symm.trans (turn_iff.1 hturn).1)
      rw [hword] at hmet
      exact ⟨met, hmet, rfl⟩
    · rintro ⟨met', hmet, heq⟩
      obtain ⟨rfl, rfl⟩ := List.cons.inj heq
      rw [hword]
      exact ⟨h, hmet⟩

/-- **The walk finds the pages of the chain**, and fails without one. -/
theorem chain_eq_ok_iff : chain data limit pointer = .ok met ↔ IsBackChain data limit pointer met := by
  induction limit using Nat.strongRecOn generalizing pointer met with
  | _ limit ih =>
    obtain ⟨hneg, hchain⟩ | ⟨⟨o, previous⟩, hturn, hchain⟩ | ⟨hpointer, hturn, e, hchain⟩ :=
      chain_cases data limit pointer
    · cases met with
      | nil => simp [hchain, isBackChain_nil_iff, hneg]
      | cons o met =>
        have hno : ¬ Turn data (limit, pointer) (o, wordAt data (o + 41)) := fun hturn => hturn.pointer hneg
        simp [hchain, isBackChain_cons_iff, hno]
    · simp only [hturn.isBackChain_iff, ← ih o hturn.below, hchain]
      cases chain data o previous <;> simp [Except.map]
    · cases met with
      | nil => simp [hchain, isBackChain_nil_iff, hpointer]
      | cons o met => simp [hchain, isBackChain_cons_iff, hturn]

namespace IsBackChain

theorem wordAt_eq (h : IsBackChain data limit pointer met) {k o' : Nat} (ho : met[k]? = some o)
    (ho' : met[k + 1]? = some o') : (wordAt data (o + 41)).toInt = o' := by
  obtain ⟨last, -, hpointers⟩ := h.pointers
  have hat := congrArg (·[k + 1]?) hpointers
  have hlt : k + 1 < (met.map Int.ofNat).length := by
    rw [List.length_map]
    exact (List.getElem?_eq_some_iff.1 ho').1
  simp only [List.map_cons, List.getElem?_cons_succ, List.getElem?_map, ho, List.getElem?_append_left hlt, ho'] at hat
  simpa using hat

theorem wordAt_lt (h : IsBackChain data limit pointer met) (ho : met.getLast? = some o) : wordAt data (o + 41) < 0 := by
  obtain ⟨last, hlast, hpointers⟩ := h.pointers
  have hend := congrArg List.getLast? hpointers
  simp only [List.map_cons, List.getLast?_cons, List.getLast?_map, ho, Option.map_some, Option.getD_some,
    List.getLast?_concat, Option.some.injEq] at hend
  rwa [Int32.lt_iff_toInt_lt, Int32.toInt_zero, hend]

end IsBackChain

/-! ## The index -/

theorem build_eq_ok_iff {x : PageIndex} : (build data).1 = .ok x ↔ Trailer.locate.result (.start data) = .ok x.trailer ∧
    chain data x.trailer.postamble.offset x.trailer.postamble.lastPage = .ok x.offsets.toList.reverse := by
  constructor
  · intro h
    unfold build at h
    cases ht : Trailer.locate.result (.start data) with
    | error e =>
      rw [ht] at h
      cases h
    | ok t =>
      cases hchain : chain data t.postamble.offset t.postamble.lastPage with
      | error e =>
        simp only [ht, hchain] at h
        cases h
      | ok back =>
        simp only [ht, hchain] at h
        obtain rfl := Except.ok.inj h
        exact ⟨rfl, by simpa using hchain⟩
  · rintro ⟨ht, hchain⟩
    simpa using build_eq ht hchain

/-- **The walk back ends for any byte string, and finds the pages if and only if they are a chain.** Both loops take
the turns that there are, and no more than the offsets below and the bytes ahead allow. The index has the pages in
their order: each page points to the one before it, and the first to none. -/
theorem build_walks_back (data : ByteArray) :
    (∀ (s : Nat × Int32) (turns : List (Nat × Int32)), (s :: turns).IsChain (Turn data) → turns.length ≤ s.1) ∧
    (∀ limit pointer, ∃ turns, Exhausts (Turn data) (limit, pointer) turns ∧
      ((turns.getLastD (limit, pointer)).2 < 0 → chain data limit pointer = .ok (turns.map Prod.fst)) ∧
      (¬ (turns.getLastD (limit, pointer)).2 < 0 → ∃ e, chain data limit pointer = .error e)) ∧
    (∀ (c : Cursor) (turns : List Cursor), (c :: turns).IsChain Trailer.FontTurn → turns.length ≤ c.remaining) ∧
    (∀ c, ∃ turns before, Exhausts Trailer.FontTurn c turns ∧ Trailer.EndsAt (turns.getLastD c) ∧
      Trailer.readFonts c = Trailer.withFonts before (Trailer.readFonts (turns.getLastD c))) ∧
    ((∃ x, (build data).1 = .ok x) ↔ ∃ t met, Trailer.locate.result (.start data) = .ok t ∧
      IsBackChain data t.postamble.offset t.postamble.lastPage met) ∧
    ∀ x, (build data).1 = .ok x → Trailer.locate.result (.start data) = .ok x.trailer ∧
      IsBackChain data x.trailer.postamble.offset x.trailer.postamble.lastPage x.offsets.toList.reverse ∧
      x.offsets.toList.Pairwise (· < ·) ∧
      (∀ n o o', x.offset? n = some o → x.offset? (n + 1) = some o' → (wordAt data (o' + 41)).toInt = o) ∧
      ∀ o, x.offset? 0 = some o → wordAt data (o + 41) < 0 := by
  refine ⟨fun s turns => length_le_of_isChain fun _ _ hturn => hturn.below, exists_turns_chain data,
    fun c turns => length_le_of_isChain fun _ _ hturn => hturn.remaining_lt, Trailer.exists_turns_readFonts, ?_,
    fun x hx => ?_⟩
  · constructor
    · rintro ⟨x, hx⟩
      obtain ⟨ht, hchain⟩ := build_eq_ok_iff.1 hx
      exact ⟨_, _, ht, chain_eq_ok_iff.1 hchain⟩
    · rintro ⟨t, met, ht, hmet⟩
      exact ⟨_, build_eq ht (chain_eq_ok_iff.2 hmet)⟩
  · obtain ⟨ht, hchain⟩ := build_eq_ok_iff.1 hx
    have hmet := chain_eq_ok_iff.1 hchain
    refine ⟨ht, hmet, List.pairwise_reverse.1 hmet.falling.of_cons, fun n o o' ho ho' => ?_, fun o ho => ?_⟩
    · rw [offset?, ← Array.getElem?_toList] at ho ho'
      have hlt := (List.getElem?_eq_some_iff.1 ho').1
      -- The place of the later page on the way back; the page before it is met next.
      let k := x.offsets.toList.length - 1 - (n + 1)
      refine hmet.wordAt_eq (k := k) ?_ ?_ <;> rw [List.getElem?_reverse (by omega)]
      · rwa [show x.offsets.toList.length - 1 - k = n + 1 by omega]
      · rwa [show x.offsets.toList.length - 1 - (k + 1) = n by omega]
    · refine hmet.wordAt_lt ?_
      rwa [List.getLast?_reverse, List.head?_eq_getElem?, Array.getElem?_toList]

end PageIndex

end Dvi
