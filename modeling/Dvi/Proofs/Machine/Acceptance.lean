import Dvi.Proofs.Machine.Fonts
import Dvi.Proofs.Stream.Prefixes
import Dvi.Proofs.Stream.Tokens

/-!
# The streams that are accepted

A machine reads exactly the beginnings of streams.

* `Machine.Tracks`: what a machine knows of the tokens that it has read;
* `Machine.Tracks.exists_execute`, `Machine.Tracks.follows`: a command is executed if and only if its token may
  follow those read before;
* `Machine.exists_runs_of_begins`, `Machine.Runs.begins`: the runs of a machine are the beginnings of streams;
* **`interpret_iff_wellFormed`**: a stream can be read to its end if and only if it is well formed.
-/

namespace Dvi

open Read

/-- The opcodes on a page that leave the fonts, the selected font and the stack alone. -/
def Opcode.isQuiet : Opcode → Bool
  | .setChar _ | .set _ | .setRule | .put _ | .putRule | .right _ | .move _ _ | .down _ | .special _ => true
  | _ => false

namespace Machine

variable {σ : Type}

/-- The machine has read the tokens `ts`, of which `cs` are the commands on the page under way. -/
structure Tracks (m : Machine σ) (ts cs : List Token) : Prop where
  fonts : ∀ id, m.fonts.contains id = true ↔ ∃ t ∈ ts, t.defines? = some id
  start : m.phase = .awaitPreamble ↔ ts = []
  id : ∀ t, ts.head? = some t → t.operands.head? = some m.expectedId
  page : m.phase = .inPage → m.graphics.depth + pops cs = pushes cs ∧
    (m.graphics.font.isSome = true ↔ ∃ t ∈ cs, t.opcode.isSelection = true)

/-- After `ts` the machine reads `t` and is `m'`. -/
abbrev Reads (m : Machine σ) (ts cs : List Token) (t : Token) (m' : Machine σ) : Prop :=
  ∃ cs', Follows ts cs t m.phase m'.phase cs' ∧ m'.Tracks (ts ++ [t]) cs'

namespace Tracks

variable {m m' : Machine σ} {ts cs : List Token} {t : Token}

theorem contains_iff (hf : m'.fonts = m.fonts) (hd : t.defines? = none) (id : UInt32) :
    m'.fonts.contains id = true ↔ m.fonts.contains id = true ∨ t.defines? = some id := by
  simp [hf, hd]

theorem fonts_concat (h : m.Tracks ts cs)
    (hf : ∀ id, m'.fonts.contains id = true ↔ m.fonts.contains id = true ∨ t.defines? = some id) (id : UInt32) :
    m'.fonts.contains id = true ↔ ∃ u ∈ ts ++ [t], u.defines? = some id := by
  rw [hf, h.fonts]
  refine ⟨?_, ?_⟩
  · rintro (⟨u, hu, hid⟩ | hid)
    · exact ⟨u, by simp [hu], hid⟩
    · exact ⟨t, by simp, hid⟩
  · rintro ⟨u, hu, hid⟩
    obtain hu | hu := List.mem_append.1 hu
    · exact .inl ⟨u, hu, hid⟩
    · rw [List.mem_singleton.1 hu] at hid
      exact .inr hid

theorem id_concat (h : m.Tracks ts cs) (hts : ts ≠ []) (hid : m'.expectedId = m.expectedId) (u : Token)
    (hu : (ts ++ [t]).head? = some u) : u.operands.head? = some m'.expectedId := by
  obtain ⟨v, l, rfl⟩ := List.exists_cons_of_ne_nil hts
  rw [hid]
  exact h.id u hu

theorem outside (h : m.Tracks ts cs) (hm : m.phase ≠ .awaitPreamble) (hp : m'.phase ≠ .inPage)
    (ha : m'.phase ≠ .awaitPreamble) (hid : m'.expectedId = m.expectedId)
    (hf : ∀ id, m'.fonts.contains id = true ↔ m.fonts.contains id = true ∨ t.defines? = some id) :
    m'.Tracks (ts ++ [t]) [] where
  fonts := h.fonts_concat hf
  start := by simp [ha]
  id := h.id_concat (fun e => hm (h.start.2 e)) hid
  page e := absurd e hp

/-- A token on a page. What it must comply with is in the state of the machine. -/
theorem onPage (h : m.Tracks ts cs) (hm : m.phase = .inPage) (ho : t.opcode.standsOnPage = true)
    (balanced : t.opcode = .pop → 0 < m.graphics.depth)
    (selected : t.opcode.isCharacter = true → m.graphics.font.isSome = true)
    (defined : ∀ id, t.selects? = some id → m.fonts.contains id = true)
    (hp : m'.phase = m.phase) (hid : m'.expectedId = m.expectedId)
    (hf : ∀ id, m'.fonts.contains id = true ↔ m.fonts.contains id = true ∨ t.defines? = some id)
    (hd : m'.graphics.depth + (if t.opcode = .pop then 1 else 0) =
      m.graphics.depth + (if t.opcode = .push then 1 else 0))
    (hs : m'.graphics.font.isSome = true ↔ m.graphics.font.isSome = true ∨ t.opcode.isSelection = true) :
    m.Reads ts cs t m' := by
  obtain ⟨hdepth, hfont⟩ := h.page hm
  have hfollows : Follows ts cs t .inPage .inPage (cs ++ [t]) := by
    refine .onPage ho (fun e => ?_) (fun e => hfont.1 (selected e)) fun id e => (h.fonts id).1 (defined id e)
    have := balanced e
    omega
  rw [Reads, hp, hm]
  refine ⟨_, hfollows, ⟨h.fonts_concat hf, by simp [hp, hm], h.id_concat ?_ hid, fun _ => ⟨?_, ?_⟩⟩⟩
  · exact fun e => by simp [h.start.2 e] at hm
  · simp only [pops, pushes, List.countP_append, List.countP_singleton, decide_eq_true_eq] at hdepth ⊢
    omega
  · rw [hs, hfont]
    simp [or_and_right, exists_or]

theorem quiet (h : m.Tracks ts cs) (hm : m.phase = .inPage) (hq : t.opcode.isQuiet = true)
    (hc : t.opcode.isCharacter = true → m.graphics.font.isSome = true)
    (hp : m'.phase = m.phase) (hid : m'.expectedId = m.expectedId) (hf : m'.fonts = m.fonts)
    (hd : m'.graphics.depth = m.graphics.depth) (hs : m'.graphics.font = m.graphics.font) :
    m.Reads ts cs t m' := by
  obtain ⟨hpush, hpop, hsel⟩ : t.opcode ≠ .push ∧ t.opcode ≠ .pop ∧ t.opcode.isSelection = false := by
    cases e : t.opcode <;> simp_all [Opcode.isQuiet, Opcode.isSelection]
  obtain ⟨ho, hselects, hdefines⟩ : t.opcode.standsOnPage = true ∧ t.selects? = none ∧ t.defines? = none := by
    obtain ⟨o, bs, hbs⟩ := t
    cases o <;> first | exact ⟨rfl, rfl, rfl⟩ | cases hq
  refine h.onPage hm ho (fun e => absurd e hpop) hc (fun id e => ?_) hp hid (fun id => ?_) ?_ ?_
  · rw [hselects] at e
    cases e
  · simp [hf, hdefines]
  · rw [hd, if_neg hpush, if_neg hpop]
  · simp [hs, hsel]

theorem anywhere (h : m.Tracks ts cs)
    (hm : m.phase = .betweenPages ∨ m.phase = .inPage ∨ m.phase = .inPostamble)
    (ho : t.opcode.standsBetween = true) (hp : m'.phase = m.phase) (hid : m'.expectedId = m.expectedId)
    (hg : m'.graphics = m.graphics)
    (hf : ∀ id, m'.fonts.contains id = true ↔ m.fonts.contains id = true ∨ t.defines? = some id) :
    m.Reads ts cs t m' := by
  have hpush : t.opcode ≠ .push := fun e => by simp [e, Opcode.standsBetween] at ho
  have hpop : t.opcode ≠ .pop := fun e => by simp [e, Opcode.standsBetween] at ho
  obtain ⟨hpage, hsel, hchar⟩ : t.opcode.standsOnPage = true ∧ t.opcode.isSelection = false ∧
      t.opcode.isCharacter = false := by
    cases e : t.opcode <;> simp_all [Opcode.standsBetween, Opcode.standsOnPage, Opcode.isSelection,
      Opcode.isCharacter]
  obtain hm | hm | hm := hm
  · rw [Reads, hp, hm]
    exact ⟨[], .between ho, h.outside (by simp [hm]) (by simp [hp, hm]) (by simp [hp, hm]) hid hf⟩
  · refine h.onPage hm hpage (fun e => absurd e hpop) (by simp [hchar]) ?_ hp hid hf ?_ ?_
    · simp [Opcode.selects?_of_standsBetween ho]
    · rw [hg, if_neg hpush, if_neg hpop]
    · simp [hg, hsel]
  · rw [Reads, hp, hm]
    exact ⟨[], .definition ho, h.outside (by simp [hm]) (by simp [hp, hm]) (by simp [hp, hm]) hid hf⟩

end Tracks

variable [FontSource σ]

theorem Tracks.exists_execute_onPage {m : Machine σ} {ts cs : List Token} {t : Token} (site : Site) {offset : Nat}
    {command : Command} (h : m.Tracks ts cs) (hp : m.phase = .inPage)
    (ht : (t.opcode.operands offset).Takes t.operands command) (ho : t.opcode.standsOnPage = true)
    (balanced : t.opcode = .pop → pops cs < pushes cs)
    (selected : t.opcode.isCharacter = true → ∃ u ∈ cs, u.opcode.isSelection = true)
    (defined : ∀ id, t.selects? = some id → ∃ u ∈ ts, u.defines? = some id) :
    Phase.inPage.allows command = true ∧
      ∀ c, ∃ e, (m.reading c site).execute site command = .ok e ∧ e.machine.phase = .inPage := by
  obtain ⟨o, bs, hbs⟩ := t
  dsimp only at ht
  obtain ⟨hdepth, hfont⟩ := h.page hp
  have typeset : ∀ placement code, o.isCharacter = true → ∀ c, ∃ e,
      (m.reading c site).execute site (.typeset placement code) = .ok e ∧ e.machine.phase = .inPage := by
    intro placement code hc c
    obtain ⟨font, hs⟩ := Option.isSome_iff_exists.1 (hfont.2 (selected hc))
    simp only [execute, Machine.typeset, reading, hs]
    exact ⟨_, rfl, hp⟩
  have select : ∀ id, Token.selects? ⟨o, bs, hbs⟩ = some id → ∀ c, ∃ e,
      (m.reading c site).execute site (.selectFont id) = .ok e ∧ e.machine.phase = .inPage := by
    intro id hid c
    exact ⟨_, if_pos ((h.fonts id).2 (defined id hid)), hp⟩
  cases o with
  | setChar k =>
    obtain ⟨-, rfl⟩ := takes_pure.1 ht
    exact ⟨rfl, typeset _ _ rfl⟩
  | set w | put w =>
    obtain ⟨code, -, rfl⟩ := takes_map.1 ht
    exact ⟨rfl, typeset _ _ rfl⟩
  | fontNum k =>
    obtain ⟨-, rfl⟩ := takes_pure.1 ht
    exact ⟨rfl, select _ rfl⟩
  | font w =>
    obtain ⟨id, hid, rfl⟩ := takes_map.1 ht
    obtain ⟨-, rfl⟩ := Width.takes_unsigned.1 hid
    exact ⟨rfl, select _ rfl⟩
  | pop =>
    obtain ⟨-, rfl⟩ := takes_pure.1 ht
    have hd : m.graphics.pop ≠ none := by
      have := balanced rfl
      rw [ne_eq, Graphics.pop_eq_none_iff]
      omega
    obtain ⟨g, hg⟩ := Option.ne_none_iff_exists'.1 hd
    refine ⟨rfl, fun c => ?_⟩
    simp only [execute, reading, hg]
    exact ⟨_, rfl, hp⟩
  | fontDef w =>
    obtain ⟨f, -, rfl⟩ := takes_map.1 ht
    exact ⟨rfl, fun c => ⟨_, rfl, (phase_defineFont _ f).trans hp⟩⟩
  | setRule | putRule =>
    obtain ⟨_, height, _, width, -, -, -, rfl⟩ := Command.takes_readRule.1 ht
    exact ⟨rfl, fun c => ⟨_, rfl, hp⟩⟩
  | special w =>
    obtain ⟨_, payload, -, -, -, rfl⟩ := Command.takes_readSpecial.1 ht
    exact ⟨rfl, fun c => ⟨_, rfl, hp⟩⟩
  | nop | push =>
    obtain ⟨-, rfl⟩ := takes_pure.1 ht
    exact ⟨rfl, fun c => ⟨_, rfl, hp⟩⟩
  | right w | down w =>
    obtain ⟨d, -, rfl⟩ := takes_map.1 ht
    exact ⟨rfl, fun c => ⟨_, rfl, hp⟩⟩
  | move r w =>
    cases w with
    | none =>
      obtain ⟨-, rfl⟩ := takes_pure.1 ht
      exact ⟨rfl, fun c => ⟨_, rfl, hp⟩⟩
    | some w =>
      obtain ⟨d, -, rfl⟩ := takes_map.1 ht
      exact ⟨rfl, fun c => ⟨_, rfl, hp⟩⟩
  | _ => cases ho

/-- **A token that may follow is executed**, and leads to the phase it should. -/
theorem Tracks.exists_execute {m : Machine σ} {ts cs cs' : List Token} {t : Token} {p' : Phase}
    (site : Site) {offset : Nat} {command : Command} (h : m.Tracks ts cs)
    (ht : (t.opcode.operands offset).Takes t.operands command) (hf : Follows ts cs t m.phase p' cs') :
    m.phase.allows command = true ∧
      ∀ c, ∃ e, (m.reading c site).execute site command = .ok e ∧ e.machine.phase = p' := by
  obtain ⟨o, bs, hbs⟩ := t
  generalize hp : m.phase = p at hf
  dsimp only at ht
  cases hf with
  | preamble ho =>
    obtain rfl : o = .preamble := ho
    obtain ⟨pre, -, rfl⟩ := takes_map.1 ht
    exact ⟨rfl, fun c => ⟨_, rfl, rfl⟩⟩
  | beginPage ho =>
    obtain rfl : o = .beginPage := ho
    obtain ⟨_, counts, _, back, -, -, -, rfl⟩ := Command.takes_readBeginPage.1 ht
    exact ⟨rfl, fun c => ⟨_, rfl, rfl⟩⟩
  | postamble ho =>
    obtain rfl : o = .postamble := ho
    obtain ⟨post, -, rfl⟩ := takes_map.1 ht
    exact ⟨rfl, fun c => ⟨_, rfl, rfl⟩⟩
  | between ho | definition ho =>
    cases o with
    | nop =>
      obtain ⟨-, rfl⟩ := takes_pure.1 ht
      exact ⟨rfl, fun c => ⟨_, rfl, hp⟩⟩
    | fontDef w =>
      obtain ⟨f, -, rfl⟩ := takes_map.1 ht
      exact ⟨rfl, fun c => ⟨_, rfl, (phase_defineFont _ f).trans hp⟩⟩
    | _ => cases ho
  | endPage ho closed =>
    obtain rfl : o = .endPage := ho
    obtain ⟨-, rfl⟩ := takes_pure.1 ht
    have hd : m.graphics.depth = 0 := by
      have := (h.page hp).1
      omega
    refine ⟨rfl, fun c => ⟨_, if_pos hd, rfl⟩⟩
  | postPostamble ho ids =>
    obtain rfl : o = .postPostamble := ho
    obtain ⟨_, pointer, id, rfl, -, rfl⟩ := Command.takes_readPostPostamble.1 ht
    obtain ⟨u, a, b, hu, ha, hb, hab⟩ := ids
    obtain rfl : id = b := by simpa using hb
    obtain rfl : a = m.expectedId := Option.some.inj (ha.symm.trans (h.id u hu))
    have hid : m.acceptsId id = true := by
      obtain hab | ⟨ha, hb⟩ := hab
      · simp [acceptsId, hab]
      · simp [acceptsId, ha, hb, Opcode.formatId, Opcode.variantFormatId]
    exact ⟨rfl, fun c => ⟨_, if_pos hid, rfl⟩⟩
  | onPage ho balanced selected defined => exact h.exists_execute_onPage site hp ht ho balanced selected defined

namespace Tracks

variable {m : Machine σ} {ts cs : List Token} {t : Token} {c : Cursor} {site : Site} {e : Effect σ}

theorem follows_preamble (h : m.Tracks ts cs) (hm : m.phase = .awaitPreamble) (ho : t.opcode = .preamble)
    {p : Preamble} (hid : t.operands.head? = some p.id)
    (he : (m.reading c site).execute site (.preamble p) = .ok e) : m.Reads ts cs t e.machine := by
  cases he
  obtain rfl := h.start.1 hm
  have hd : t.defines? = none := by rw [Token.defines?, ho]
  refine ⟨[], hm ▸ .preamble ho, ⟨h.fonts_concat (contains_iff rfl hd), by simp, ?_, ?_⟩⟩
  · rintro _ ⟨⟩
    exact hid
  · intro hp
    cases hp

theorem follows_beginPage (h : m.Tracks ts cs) (hm : m.phase = .betweenPages) (ho : t.opcode = .beginPage)
    {counts : Vector Int32 10} {back : Int32} (he : (m.reading c site).execute site (.beginPage counts back) = .ok e) :
    m.Reads ts cs t e.machine := by
  cases he
  have hts : ts ≠ [] := fun e => by simp [h.start.2 e] at hm
  have hd : t.defines? = none := by rw [Token.defines?, ho]
  refine ⟨[], hm ▸ .beginPage ho, ⟨h.fonts_concat (contains_iff rfl hd), ?_, h.id_concat hts rfl, ?_⟩⟩
  · simp [beginPage]
  · exact fun _ => ⟨rfl, by simp [beginPage]⟩

theorem follows_endPage (h : m.Tracks ts cs) (hm : m.phase = .inPage) (ho : t.opcode = .endPage)
    (he : (m.reading c site).execute site .endPage = .ok e) : m.Reads ts cs t e.machine := by
  have hclosed := (h.page hm).1
  have hd : t.defines? = none := by rw [Token.defines?, ho]
  simp only [execute] at he
  split at he
  · rename_i hdepth
    cases he
    simp only [reading] at hdepth
    refine ⟨[], hm ▸ .endPage ho (by omega), ?_⟩
    exact h.outside (by simp [hm]) (by simp) (by simp) rfl (contains_iff rfl hd)
  · cases he

theorem follows_postPostamble (h : m.Tracks ts cs) (hm : m.phase = .inPostamble) (ho : t.opcode = .postPostamble)
    {pointer : Int32} {id : UInt8} (hlast : t.operands.getLast? = some id)
    (he : (m.reading c site).execute site (.postPostamble pointer id) = .ok e) : m.Reads ts cs t e.machine := by
  have hts : ts ≠ [] := fun e => by simp [h.start.2 e] at hm
  obtain ⟨u, l, rfl⟩ := List.exists_cons_of_ne_nil hts
  have hd : t.defines? = none := by rw [Token.defines?, ho]
  simp only [execute, finish] at he
  split at he
  · rename_i hid
    cases he
    change m.acceptsId id = true at hid
    simp only [acceptsId, Bool.or_eq_true, Bool.and_eq_true, beq_iff_eq] at hid
    refine ⟨[], hm ▸ .postPostamble ho ⟨u, m.expectedId, id, rfl, h.id u rfl, hlast, ?_⟩, ?_⟩
    · exact hid.imp Eq.symm fun h => h
    · exact h.outside (by simp [hm]) (by simp) (by simp) rfl (contains_iff rfl hd)
  · cases he

theorem follows_defineFont (h : m.Tracks ts cs)
    (hm : m.phase = .betweenPages ∨ m.phase = .inPage ∨ m.phase = .inPostamble)
    (ho : t.opcode.standsBetween = true) {f : FontDefinition} (hd : t.defines? = some f.id)
    (he : (m.reading c site).execute site (.defineFont f) = .ok e) : m.Reads ts cs t e.machine := by
  cases he
  obtain ⟨source, fonts, metrics, fontMap, e⟩ := (m.reading c site).defineFont_eq f
  refine h.anywhere hm ho (by rw [e]; rfl) (by rw [e]; rfl) (by rw [e]; rfl) fun id => ?_
  rw [contains_defineFont, hd, Option.some.injEq]
  exact or_congr Iff.rfl eq_comm

theorem follows_typeset (h : m.Tracks ts cs) (hm : m.phase = .inPage) (hq : t.opcode.isQuiet = true)
    {placement : Placement} {code : UInt32} (he : (m.reading c site).execute site (.typeset placement code) = .ok e) :
    m.Reads ts cs t e.machine := by
  simp only [execute, Machine.typeset] at he
  split at he
  · cases he
  rename_i font hs
  cases he
  have hs : m.graphics.font.isSome = true := by simpa [reading] using congrArg Option.isSome hs
  exact h.quiet hm hq (fun _ => hs) rfl rfl rfl rfl rfl

theorem follows_push (h : m.Tracks ts cs) (hm : m.phase = .inPage) (ho : t.opcode = .push)
    (he : (m.reading c site).execute site .push = .ok e) : m.Reads ts cs t e.machine := by
  cases he
  have hd : t.defines? = none := by rw [Token.defines?, ho]
  refine h.onPage hm (by rw [ho]; rfl) ?_ ?_ ?_ rfl rfl (contains_iff rfl hd) ?_ ?_
  · simp [ho]
  · simp [ho, Opcode.isCharacter]
  · simp [ho, Token.selects?]
  · simp [ho, reading, Graphics.push]
  · simp [ho, reading, Graphics.push, Opcode.isSelection]

theorem follows_pop (h : m.Tracks ts cs) (hm : m.phase = .inPage) (ho : t.opcode = .pop)
    (he : (m.reading c site).execute site .pop = .ok e) : m.Reads ts cs t e.machine := by
  have hd : t.defines? = none := by rw [Token.defines?, ho]
  simp only [execute] at he
  split at he
  · rename_i g hg
    cases he
    obtain ⟨hdepth, hfont⟩ := Graphics.pop_eq_some hg
    change g.depth + 1 = m.graphics.depth at hdepth
    change g.font = m.graphics.font at hfont
    refine h.onPage hm (by rw [ho]; rfl) (fun _ => by omega) ?_ ?_ rfl rfl (contains_iff rfl hd) ?_ ?_
    · simp [ho, Opcode.isCharacter]
    · simp [ho, Token.selects?]
    · simpa [ho] using hdepth
    · simp [ho, hfont, Opcode.isSelection]
  · cases he

theorem follows_selectFont (h : m.Tracks ts cs) (hm : m.phase = .inPage) {id : UInt32}
    (hs : t.selects? = some id) (he : (m.reading c site).execute site (.selectFont id) = .ok e) :
    m.Reads ts cs t e.machine := by
  obtain ⟨hpage, hsel, hchar⟩ : t.opcode.standsOnPage = true ∧ t.opcode.isSelection = true ∧
      t.opcode.isCharacter = false := by
    cases ho : t.opcode <;> simp [Token.selects?, ho] at hs <;> exact ⟨rfl, rfl, rfl⟩
  have hpush : t.opcode ≠ .push := fun e => by simp [e, Opcode.isSelection] at hsel
  have hpop : t.opcode ≠ .pop := fun e => by simp [e, Opcode.isSelection] at hsel
  have hd : t.defines? = none := by
    cases ho : t.opcode <;> simp [Token.selects?, ho] at hs <;> simp [Token.defines?, ho]
  simp only [execute] at he
  split at he
  · rename_i hc
    cases he
    refine h.onPage hm hpage (fun e => absurd e hpop) (by simp [hchar]) (fun id' hid' => ?_) rfl rfl
      (contains_iff rfl hd) ?_ ?_
    · obtain rfl : id = id' := Option.some.inj (hs.symm.trans hid')
      exact hc
    · rw [if_neg hpush, if_neg hpop]
      rfl
    · simp [hsel]
  · cases he

/-- **A command that is executed follows the tokens before it**, and the machine has read one token more. -/
theorem follows {offset : Nat} {command : Command} (h : m.Tracks ts cs)
    (ht : (t.opcode.operands offset).Takes t.operands command) (ha : m.phase.allows command = true)
    (he : (m.reading c site).execute site command = .ok e) : m.Reads ts cs t e.machine := by
  obtain ⟨o, bs, hbs⟩ := t
  dsimp only at ht
  have onPage : command.draws = true → m.phase = .inPage := fun hc => Phase.eq_inPage_of_allows hc ha
  cases o with
  | preamble =>
    obtain ⟨p, hp, rfl⟩ := takes_map.1 ht
    obtain ⟨id, _, _, _, _, _, rfl, -, -, -, -, rfl⟩ := Preamble.takes_read.1 hp
    cases hm : m.phase <;> simp only [hm, Phase.allows, Bool.false_eq_true] at ha
    exact h.follows_preamble hm rfl rfl he
  | postamble =>
    obtain ⟨post, -, rfl⟩ := takes_map.1 ht
    cases he
    cases hm : m.phase <;> simp only [hm, Phase.allows, Bool.false_eq_true] at ha
    exact ⟨[], hm ▸ .postamble rfl, h.outside (by simp [hm]) (by simp) (by simp) rfl (contains_iff rfl rfl)⟩
  | beginPage =>
    obtain ⟨_, counts, _, back, -, -, -, rfl⟩ := Command.takes_readBeginPage.1 ht
    cases hm : m.phase <;> simp only [hm, Phase.allows, Bool.false_eq_true] at ha
    exact h.follows_beginPage hm rfl he
  | endPage =>
    obtain ⟨-, rfl⟩ := takes_pure.1 ht
    cases hm : m.phase <;> simp only [hm, Phase.allows, Bool.false_eq_true] at ha
    exact h.follows_endPage hm rfl he
  | postPostamble =>
    obtain ⟨_, pointer, id, rfl, -, rfl⟩ := Command.takes_readPostPostamble.1 ht
    cases hm : m.phase <;> simp only [hm, Phase.allows, Bool.false_eq_true] at ha
    exact h.follows_postPostamble hm rfl (by simp) he
  | nop =>
    obtain ⟨-, rfl⟩ := takes_pure.1 ht
    cases he
    refine h.anywhere ?_ rfl rfl rfl rfl (contains_iff rfl rfl)
    cases hm : m.phase <;> simp [hm, Phase.allows] at ha ⊢
  | fontDef w =>
    obtain ⟨f, hf, rfl⟩ := takes_map.1 ht
    refine h.follows_defineFont ?_ rfl (congrArg some (FontDefinition.id_of_takes hf)) he
    cases hm : m.phase <;> simp [hm, Phase.allows] at ha ⊢
  | setChar k =>
    obtain ⟨-, rfl⟩ := takes_pure.1 ht
    exact h.follows_typeset (onPage rfl) rfl he
  | set w | put w =>
    obtain ⟨code, -, rfl⟩ := takes_map.1 ht
    exact h.follows_typeset (onPage rfl) rfl he
  | setRule | putRule =>
    obtain ⟨_, height, _, width, -, -, -, rfl⟩ := Command.takes_readRule.1 ht
    cases he
    exact h.quiet (onPage rfl) rfl (fun e => by cases e) rfl rfl rfl rfl rfl
  | right w | down w =>
    obtain ⟨d, -, rfl⟩ := takes_map.1 ht
    cases he
    exact h.quiet (onPage rfl) rfl (fun e => by cases e) rfl rfl rfl rfl rfl
  | move r w =>
    have hx : ∃ d, command = .move r d := by
      cases w with
      | none => exact ⟨_, (takes_pure.1 ht).2⟩
      | some w => exact ⟨_, (takes_map.1 ht).choose_spec.2⟩
    obtain ⟨d, rfl⟩ := hx
    cases he
    exact h.quiet (onPage rfl) rfl (fun e => by cases e) rfl rfl rfl rfl rfl
  | special w =>
    obtain ⟨_, payload, -, -, -, rfl⟩ := Command.takes_readSpecial.1 ht
    cases he
    exact h.quiet (onPage rfl) rfl (fun e => by cases e) rfl rfl rfl rfl rfl
  | push =>
    obtain ⟨-, rfl⟩ := takes_pure.1 ht
    exact h.follows_push (onPage rfl) rfl he
  | pop =>
    obtain ⟨-, rfl⟩ := takes_pure.1 ht
    exact h.follows_pop (onPage rfl) rfl he
  | fontNum k =>
    obtain ⟨-, rfl⟩ := takes_pure.1 ht
    exact h.follows_selectFont (onPage rfl) rfl he
  | font w =>
    obtain ⟨id, hid, rfl⟩ := takes_map.1 ht
    obtain ⟨-, rfl⟩ := Width.takes_unsigned.1 hid
    exact h.follows_selectFont (onPage rfl) rfl he
  | undefined i =>
    obtain ⟨-, rfl⟩ := takes_pure.1 ht
    cases he

end Tracks

/-! ## Runs and beginnings -/

omit [FontSource σ] in
theorem tracks_start (data : ByteArray) (source : σ) : (start data source).Tracks [] [] where
  fonts id := by simp [start, Table.contains_empty]
  start := by simp [start]
  id t ht := by cases ht
  page hp := by cases hp

/-- **What a machine has read is the beginning of a stream.** -/
theorem Runs.begins {data : ByteArray} {source : σ} {m : Machine σ} {h : List Executed}
    (hr : (start data source).Runs h m) : ∃ ts cs, Begins m.phase ts cs ∧ m.Tracks ts cs ∧
      data.data.toList = ts.flatMap Token.bytes ++ m.cursor.rest := by
  induction hr with
  | nil => exact ⟨[], [], .nil, tracks_start data source, rfl⟩
  | @snoc h x m₁ m₂ _ hx ih =>
    obtain ⟨ts, cs, hb, htracks, hdata⟩ := ih
    obtain ⟨t, _, hp, ht⟩ := Cursor.command?_iff_token.1 hx.read
    obtain ⟨cs', hf, htracks'⟩ := htracks.follows ht hx.allowed hx.executed
    refine ⟨ts ++ [t], cs', .snoc hb hf, htracks', ?_⟩
    rw [hdata, hp.rest, List.flatMap_append]
    simp

/-- **A machine reads whatever is the beginning of a stream.** -/
theorem exists_runs_of_begins {data : ByteArray} (source : σ) {p : Phase} {ts cs : List Token}
    (hb : Begins p ts cs) {rest : List UInt8} (hdata : data.data.toList = ts.flatMap Token.bytes ++ rest) :
    ∃ h m, (start data source).Runs h m ∧ m.phase = p ∧ m.Tracks ts cs ∧ m.cursor.rest = rest := by
  induction hb generalizing rest with
  | nil => exact ⟨[], _, .nil, rfl, tracks_start data source, hdata⟩
  | @snoc p p' ts cs cs' t _ hf ih =>
    obtain ⟨h, m, hr, rfl, htracks, hrest⟩ := @ih (t.bytes ++ rest) (by rw [hdata]; simp)
    obtain ⟨c, hp, rfl⟩ := Cursor.exists_passes hrest
    obtain ⟨command, ht⟩ : ∃ command, (t.opcode.operands m.cursor.pos).Takes t.operands command :=
      Opcode.exists_takes_iff.2 t.prescribed
    obtain ⟨ha, hx⟩ := htracks.exists_execute ⟨m.cursor.pos, t.opcode.toByte⟩ ht hf
    obtain ⟨e, he, hphase⟩ := hx c
    have hc : e.machine.cursor = c := cursor_of_execute he
    have hd := does_of_execute (Cursor.command?_iff_token.2 ⟨t, rfl, hp, ht⟩) ha he
    obtain ⟨cs₁, hf₁, htracks₁⟩ := htracks.follows ht ha he
    rw [hphase] at hf₁
    rw [hf₁.unique hf] at htracks₁
    exact ⟨_, _, .snoc hr hd, hphase, htracks₁, by rw [hc]⟩

end Machine

/-! ## Whole streams -/

section Interpret

variable {σ : Type} [FontSource σ] (data : ByteArray) (source : σ)

theorem exists_interpret_iff : (∃ doc, interpret data source = .ok doc) ↔
    ∃ h m, (Machine.start data source).Runs h m ∧ m.phase = .afterPostamble := by
  refine ⟨?_, ?_⟩
  · rintro ⟨doc, hdoc⟩
    obtain ⟨h, m, hr, ⟨hm, _⟩ | ⟨err, e, _, he⟩⟩ := exists_interpretPartial data source
    · exact ⟨h, m, hr, hm⟩
    · rw [interpret, he] at hdoc
      cases hdoc
  · rintro ⟨h, m, hr, hm⟩
    rw [interpret, interpretPartial_of_runs hr hm]
    exact ⟨_, rfl⟩

/-- **A stream is read to its end if and only if it is well formed; otherwise reading it is an error.** -/
theorem interpret_iff_wellFormed :
    ((∃ doc, interpret data source = .ok doc) ↔ ∃ s : StreamText, s.WellFormed ∧ s.bytes = data.data.toList) ∧
    ((∃ err, interpret data source = .error err) ↔
      ¬ ∃ s : StreamText, s.WellFormed ∧ s.bytes = data.data.toList) := by
  have hok : (∃ doc, interpret data source = .ok doc) ↔
      ∃ s : StreamText, s.WellFormed ∧ s.bytes = data.data.toList := by
    rw [exists_interpret_iff]
    refine ⟨?_, ?_⟩
    · rintro ⟨h, m, hr, hm⟩
      obtain ⟨ts, cs, hb, _, hdata⟩ := hr.begins
      rw [hm] at hb
      obtain ⟨s, rfl, hs⟩ := begins_iff.1 ⟨cs, hb⟩
      exact ⟨{ s with trailing := m.cursor.rest }, ⟨hs.pre, hs.parts, hs.post, hs.definitions, hs.postPost,
        hs.fonts, hs.ids⟩, hdata.symm⟩
    · rintro ⟨s, hs, hdata⟩
      obtain ⟨cs, hb⟩ := begins_iff.2 ⟨s, rfl, hs⟩
      obtain ⟨h, m, hr, hm, _⟩ := Machine.exists_runs_of_begins source hb hdata.symm
      exact ⟨h, m, hr, hm⟩
  refine ⟨hok, ?_⟩
  rw [← hok]
  cases interpret data source <;> simp

end Interpret

end Dvi
