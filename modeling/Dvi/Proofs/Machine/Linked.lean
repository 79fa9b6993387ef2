import Dvi.Proofs.Machine.Drawing
import Dvi.Proofs.Stream.Trailer

/-!
# Streams that can be read from the end

What was read from the front is found from the end, if the pointers in the stream are right.

* `Consistent`: a stream that was read to its end without a pointer that is wrong, and whose padding is padding;
* `Machine.Linked`: the pages read so far point back to each other, and the fonts after the postamble are those
  defined since. **`Machine.Runs.linked`**: so it is at all times;
* **`Consistent.exists_locate`**: the end of the stream is found;
* **`build_eq_of_consistent`**: the index has the pages, the postamble and the fonts that were read.
-/

namespace Dvi

open PageIndex

/-- The warnings about pointers from one place in the stream to another. -/
def Warning.isPointer : Warning → Bool
  | .backPointer .. | .lastPage .. | .postPointer .. => true
  | _ => false

namespace Command

/-- The command is a postamble. -/
def isPostamble : Command → Bool
  | .postamble _ => true
  | _ => false

end Command

namespace Executed

/-- The offset of the page that is begun. -/
def pageOffset? (x : Executed) : Option Nat :=
  match x.command with
  | .beginPage .. => some x.site.offset
  | _ => none

theorem pageOffset?_eq_none {x : Executed} (hb : ∀ counts back, x.command ≠ .beginPage counts back) :
    x.pageOffset? = none := by
  unfold pageOffset?
  split
  · rename_i hc
    exact absurd hc (hb _ _)
  · rfl

theorem offset_of_pageOffset? {x : Executed} {offset : Nat} (h : x.pageOffset? = some offset) :
    x.site.offset = offset := by
  unfold pageOffset? at h
  split at h <;> cases h
  rfl

theorem filterMap_pageOffset?_concat {x : Executed} (h : List Executed)
    (hb : ∀ counts back, x.command ≠ .beginPage counts back) :
    (h ++ [x]).filterMap pageOffset? = h.filterMap pageOffset? := by
  simp [pageOffset?_eq_none hb]

end Executed

/-- The fonts defined before the postamble. -/
def fontsBefore (h : List Executed) : List FontDefinition :=
  (h.takeWhile fun x => !x.command.isPostamble).filterMap fun x => x.command.definition?

/-- The fonts defined after the postamble. -/
def fontsAfter (h : List Executed) : List FontDefinition :=
  (h.dropWhile fun x => !x.command.isPostamble).filterMap fun x => x.command.definition?

theorem fontsAfter_concat {h : List Executed} {x : Executed} (hd : x.command.definition? = none)
    (hp : x.command.isPostamble = false) : fontsAfter (h ++ [x]) = fontsAfter h := by
  unfold fontsAfter
  rw [List.dropWhile_append]
  split
  · rename_i hnil
    rw [List.isEmpty_iff.1 hnil]
    simp [hp]
  · simp [hd]

namespace Phase

theorem nop_or_defineFont {c : Command} (h : Phase.inPostamble.allows c = true)
    (hc : ∀ pointer id, c ≠ .postPostamble pointer id) : c = .nop ∨ ∃ f, c = .defineFont f := by
  cases c <;> simp_all [allows]

theorem eq_inPostamble_of_next {p : Phase} {c : Command} (h : p.next c = .inPostamble)
    (hc : c.isPostamble = false) : p = .inPostamble := by
  cases c <;> simp_all [next, Command.isPostamble]

theorem eq_of_next_afterPostamble {p : Phase} {c : Command} (ha : p.allows c = true)
    (h : p.next c = .afterPostamble) : p = .inPostamble ∧ ∃ pointer id, c = .postPostamble pointer id := by
  cases p <;> cases c <;> simp_all [next, allows]

end Phase

namespace Machine

variable {σ : Type} [FontSource σ]

theorem frame_of_execute {m : Machine σ} {site : Site} {c : Command} {e : Effect σ}
    (h : m.execute site c = .ok e) : e.machine.randomAccess = m.randomAccess ∧
      ((∀ counts back, c ≠ .beginPage counts back) → e.machine.lastPage = m.lastPage) ∧
      (c.isPostamble = false → (∀ pointer id, c ≠ .postPostamble pointer id) →
        e.machine.postamble = m.postamble) := by
  cases execute_eq_ok_iff.1 h with
  | beginPage => exact ⟨rfl, fun hb => absurd rfl (hb _ _), fun _ _ => rfl⟩
  | postamble => exact ⟨rfl, fun _ => rfl, nofun⟩
  | postPostamble => exact ⟨rfl, fun _ => rfl, fun _ hp => absurd rfl (hp _ _)⟩
  | @defineFont f =>
    obtain ⟨source, fonts, metrics, fontMap, e⟩ := m.defineFont_eq f
    rw [e]
    exact ⟨rfl, fun _ => rfl, fun _ _ => rfl⟩
  | _ => exact ⟨rfl, fun _ => rfl, fun _ _ => rfl⟩

/-! ## The pages that were begun -/

theorem Runs.offsets_eq {data : ByteArray} {source : σ} {m : Machine σ} {h : List Executed}
    (hr : (start data source).Runs h m) :
    ((h.flatMap Executed.signals).foldl Device.receive ({} : PageCollector)).pages.map (·.offset) =
      h.filterMap Executed.pageOffset? := by
  induction hr with
  | nil => rfl
  | @snoc h x m₁ m₂ hr hx ih =>
    have hcollects := hr.collects
    rw [List.flatMap_append, List.foldl_append, List.flatMap_cons, List.flatMap_nil, List.append_nil,
      List.filterMap_append, ← ih]
    generalize (h.flatMap Executed.signals).foldl Device.receive ({} : PageCollector) = c at hcollects ⊢
    obtain ⟨hp, hc⟩ | ⟨hp, hc⟩ | ⟨hp, counts, back, hc⟩ | ⟨hp, _, hd, he, hb⟩ := Phase.cases_of_allows hx.allowed
    · obtain ⟨p, hcur⟩ := hcollects.underway hp
      obtain ⟨b, hdraws⟩ := hcollects.current p hcur
      obtain ⟨events, hs, _⟩ := hdraws.exists_more hx hc
      have hx' : x.pageOffset? = none :=
        Executed.pageOffset?_eq_none fun counts back e => by rw [e] at hc; cases hc
      rw [hs, c.foldl_receive_event p hcur]
      simp [PageCollector.pages, hcur, hx', Page.draw]
    · obtain ⟨p, hcur⟩ := hcollects.underway hp
      rw [hx.signals_of_endPage hc]
      obtain ⟨closed, current⟩ := c
      obtain rfl : current = some p := hcur
      simp [PageCollector.pages, Executed.pageOffset?, hc, Device.receive]
    · rw [hx.signals_of_beginPage hc]
      have hcur := hcollects.current_eq_none (by simp [hp])
      simp [PageCollector.pages, Executed.pageOffset?, hc, hcur, Device.receive]
    · obtain ⟨events, hs, hn⟩ := exists_events_of_execute hx.executed hb he
      obtain rfl := hn hd
      change x.signals = [] at hs
      simp [hs, Executed.pageOffset?_eq_none hb]

/-! ## Pointers to what was read -/

theorem Does.pos_lt {m m' : Machine σ} {x : Executed} (h : m.Does x m') : m.cursor.pos < m'.cursor.pos := by
  obtain ⟨bs, hp⟩ := Cursor.passes_of_command? h.read
  rw [hp.pos, List.length_cons]
  omega

section Pointers

variable {m m' : Machine σ} {x : Executed} (hx : m.Does x m') (hs : m.randomAccess = false)
  (hw : ∀ w ∈ x.warnings, w.isPointer = false)

include hx hs hw

/-- Without a warning, a page points back to the page before it. -/
theorem Does.backPointer_eq {counts : Vector Int32 10} {back : Int32} (hc : x.command = .beginPage counts back) :
    back = m.lastPage := by
  have he := hx.executed
  rw [hc] at he
  have hwarn := congrArg Effect.warnings (Except.ok.inj he)
  simp only [beginPage, reading, hs, Bool.false_or, decide_eq_true_eq] at hwarn
  by_cases hne : back = m.lastPage
  · exact hne
  · rw [if_neg hne] at hwarn
    have := hw (.backPointer (m.pageCount + 1) m.lastPage back) (by rw [← hwarn]; simp)
    cases this

theorem Does.lastPage_eq {p : Postamble} (hc : x.command = .postamble p) : p.lastPage = m.lastPage := by
  have he := hx.executed
  rw [hc] at he
  have hwarn := congrArg Effect.warnings (Except.ok.inj he)
  simp only [postambleWarnings, reading, hs, Bool.false_eq_true, if_false] at hwarn
  by_cases hne : p.lastPage = m.lastPage
  · exact hne
  · have := hw (.lastPage m.lastPage p.lastPage) (by rw [← hwarn]; simp [hne])
    cases this

end Pointers

/-- The postamble `p` was read, and the fonts defined since are found behind it. -/
structure PassedPostamble (m : Machine σ) (h : List Executed) (p : Postamble) : Prop where
  postamble : m.postamble = some p
  lastPage : p.lastPage = m.lastPage
  below : ∀ o ∈ h.filterMap Executed.pageOffset?, o < p.offset
  passed : (h.dropWhile fun x => !x.command.isPostamble) ≠ []
  fonts : ∃ (c : Cursor) (site : Site) (c' : Cursor), c.data = m.cursor.data ∧ c.pos = p.offset ∧ c.pos < m.cursor.pos ∧
    c.command? = some (site, .postamble p, c') ∧
    ∀ fs c'', Trailer.readFonts m.cursor = .ok fs c'' → Trailer.readFonts c' = .ok (fontsAfter h ++ fs) c''

/-- The pages that were begun point back to each other, and the machine knows the last of them. -/
structure Linked (m : Machine σ) (h : List Executed) : Prop where
  sequential : m.randomAccess = false
  links : Links m.cursor.data (h.filterMap Executed.pageOffset?).reverse m.lastPage
  below : ∀ o ∈ h.filterMap Executed.pageOffset?, o < m.cursor.pos
  before : m.phase ≠ .inPostamble → ∀ x ∈ h, x.command.isPostamble = false
  after : m.phase = .inPostamble → ∃ p, m.PassedPostamble h p

namespace Linked

variable {m m' : Machine σ} {h : List Executed} {x : Executed}

theorem beginPage (hl : m.Linked h) (hx : m.Does x m') (hw : ∀ w ∈ x.warnings, w.isPointer = false)
    {counts : Vector Int32 10} {back : Int32} (hc : x.command = .beginPage counts back) :
    m'.Linked (h ++ [x]) := by
  have hread := hx.read
  have he := hx.executed
  have ha := hx.allowed
  rw [hc] at hread he ha
  have hphase : m.phase ≠ .inPostamble := fun e => by simp [e, Phase.allows] at ha
  have hoffset : x.pageOffset? = some m.cursor.pos := by
    simp only [Executed.pageOffset?, hc, hx.offset]
  have hlast : m'.lastPage = Int32.ofNat m.cursor.pos := by
    rw [← hx.offset]
    exact (congrArg (fun e : Effect σ => e.machine.lastPage) (Except.ok.inj he)).symm
  have hback : back = m.lastPage := hx.backPointer_eq hl.sequential hw hc
  obtain ⟨o, bs, hp, ht⟩ := Cursor.command?_eq_some_iff.1 hread
  have hop : Opcode.ofByte ((m.cursor.data[m.cursor.pos]?).getD 0) = .beginPage := by
    have hpeek := Cursor.peek_of_command? hread
    rw [Cursor.peek, Cursor.byteAt] at hpeek
    rw [hpeek]
    exact (Opcode.of_takes ht).1
  have hsize : m.cursor.pos < m.cursor.data.size := by
    have := m'.cursor.pos_le
    rw [hx.data] at this
    have := hx.pos_lt
    omega
  have hfilter : (h ++ [x]).filterMap Executed.pageOffset? =
      h.filterMap Executed.pageOffset? ++ [m.cursor.pos] := by
    simp [hoffset]
  refine ⟨?_, ?_, fun q hq => ?_, fun _ y hy => ?_, fun e => ?_⟩
  · rw [(frame_of_execute hx.executed).1]
    exact hl.sequential
  · rw [hfilter, List.reverse_append, List.reverse_singleton, List.singleton_append, hlast, hx.data]
    refine .cons hl.links (fun q hq => hl.below q (List.mem_reverse.1 hq)) hsize hop ?_
    rw [← hback]
    exact backPointer_eq hread
  · rw [hfilter, List.mem_append, List.mem_singleton] at hq
    have hlt := hx.pos_lt
    obtain hq | rfl := hq
    · have := hl.below q hq
      omega
    · exact hlt
  · obtain hy | hy := List.mem_append.1 hy
    · exact hl.before hphase y hy
    · rw [List.mem_singleton.1 hy, hc]
      rfl
  · rw [hx.phase, hc, Phase.next] at e
    cases e

theorem postamble (hl : m.Linked h) (hx : m.Does x m') (hw : ∀ w ∈ x.warnings, w.isPointer = false)
    {p : Postamble} (hc : x.command = .postamble p) : m'.Linked (h ++ [x]) := by
  have hread := hx.read
  have he := hx.executed
  have ha := hx.allowed
  rw [hc] at hread he ha
  have hphase : m.phase ≠ .inPostamble := fun e => by simp [e, Phase.allows] at ha
  obtain ⟨hrandom, hlast, -⟩ := frame_of_execute hx.executed
  have hlast : m'.lastPage = m.lastPage := hlast (by simp [hc])
  have hpost : m'.postamble = some p :=
    (congrArg (fun e : Effect σ => e.machine.postamble) (Except.ok.inj he)).symm
  have hpointer : p.lastPage = m.lastPage := hx.lastPage_eq hl.sequential hw hc
  obtain ⟨_, bs, hp, ht⟩ := Cursor.command?_eq_some_iff.1 hread
  have hoffset : p.offset = m.cursor.pos := Postamble.yields_offset _ (Opcode.of_takes ht).2
  have hfilter := Executed.filterMap_pageOffset?_concat h (x := x) (by simp [hc])
  -- the postamble is the first one
  have hdrop : ((h ++ [x]).dropWhile fun x => !x.command.isPostamble) = [x] := by
    rw [List.dropWhile_append_of_pos fun y hy => by rw [hl.before hphase y hy]; rfl]
    simp [hc, Command.isPostamble]
  have hlt := hx.pos_lt
  refine ⟨hrandom.trans hl.sequential, ?_, fun q hq => ?_, fun e => ?_, fun _ => ⟨p, ?_⟩⟩
  · rw [hfilter, hlast, hx.data]
    exact hl.links
  · rw [hfilter] at hq
    have := hl.below q hq
    omega
  · exact absurd (by rw [hx.phase, hc, Phase.next]) e
  · refine ⟨hpost, hpointer.trans hlast.symm, fun q hq => ?_, by simp [hdrop], ?_⟩
    · rw [hfilter] at hq
      rw [hoffset]
      exact hl.below q hq
    · refine ⟨m.cursor, x.site, m'.cursor, hx.data.symm, hoffset.symm, hlt, hread, fun fs c'' hf => ?_⟩
      simp only [fontsAfter, hdrop, hf]
      simp [hc, Command.definition?]

theorem passedPostamble {p : Postamble} (hp : m.PassedPostamble h p) (hx : m.Does x m')
    (hc : x.command = .nop ∨ ∃ f, x.command = .defineFont f) : m'.PassedPostamble (h ++ [x]) p := by
  obtain ⟨hpost, hlast, hbelow, hpassed, c, site, c', hdata, hpos, hlt, hread, hfonts⟩ := hp
  obtain ⟨_, hlast', hpost'⟩ := frame_of_execute hx.executed
  have hdrop : ((h ++ [x]).dropWhile fun x => !x.command.isPostamble) =
      (h.dropWhile fun x => !x.command.isPostamble) ++ [x] := by
    rw [List.dropWhile_append, if_neg (by simpa using hpassed)]
  have hx' : m.cursor.command? = some (x.site, x.command, m'.cursor) := hx.read
  have hbegin : ∀ counts back, x.command ≠ .beginPage counts back := by
    obtain hc | ⟨f, hc⟩ := hc <;> simp [hc]
  have hfilter := Executed.filterMap_pageOffset?_concat h hbegin
  have hafter : ∀ fs c'', Trailer.readFonts m'.cursor = .ok fs c'' →
      Trailer.readFonts m.cursor = .ok (x.command.definition?.toList ++ fs) c'' := by
    intro fs c'' hf
    obtain hc | ⟨f, hc⟩ := hc <;> rw [hc] at hx' ⊢
    · rw [Trailer.readFonts_of_nop hx', hf]
      rfl
    · rw [Trailer.readFonts_of_defineFont hx' hf]
      rfl
  refine ⟨?_, ?_, by rwa [hfilter], by simp [hdrop], c, site, c', hdata.trans hx.data.symm, hpos,
    Nat.lt_trans hlt hx.pos_lt, hread, fun fs c'' hf => ?_⟩
  · rw [hpost' (by obtain hc | ⟨f, hc⟩ := hc <;> rw [hc] <;> rfl) (by obtain hc | ⟨f, hc⟩ := hc <;> simp [hc])]
    exact hpost
  · rw [hlast' hbegin]
    exact hlast
  · rw [hfonts _ _ (hafter fs c'' hf), fontsAfter, fontsAfter, hdrop, List.filterMap_append]
    cases hd : x.command.definition? <;> simp [hd]

theorem other (hl : m.Linked h) (hx : m.Does x m') (hb : ∀ counts back, x.command ≠ .beginPage counts back)
    (hp : x.command.isPostamble = false) (hpp : ∀ pointer id, x.command ≠ .postPostamble pointer id) :
    m'.Linked (h ++ [x]) := by
  obtain ⟨hrandom, hlast, hpost⟩ := frame_of_execute hx.executed
  have hphase := hx.phase
  have ha := hx.allowed
  have hfilter := Executed.filterMap_pageOffset?_concat h hb
  refine ⟨hrandom.trans hl.sequential, ?_, fun q hq => ?_, fun e y hy => ?_, fun e => ?_⟩
  · rw [hfilter, hlast hb, hx.data]
    exact hl.links
  · rw [hfilter] at hq
    exact Nat.lt_trans (hl.below q hq) hx.pos_lt
  · obtain hy | hy := List.mem_append.1 hy
    · refine hl.before (fun e' => e ?_) y hy
      rw [e'] at ha
      obtain hc | ⟨f, hc⟩ := Phase.nop_or_defineFont ha hpp <;> rw [hphase, e', hc] <;> rfl
    · rwa [List.mem_singleton.1 hy]
  · have hm : m.phase = .inPostamble := Phase.eq_inPostamble_of_next (hphase.symm.trans e) hp
    obtain ⟨p, hpassed⟩ := hl.after hm
    rw [hm] at ha
    exact ⟨p, passedPostamble hpassed hx (Phase.nop_or_defineFont ha hpp)⟩

end Linked

/-- **At all times before its end what was read is linked**, if there was no warning about a pointer. -/
theorem Runs.linked {data : ByteArray} {source : σ} {m : Machine σ} {h : List Executed}
    (hr : (start data source).Runs h m) (hw : ∀ x ∈ h, ∀ w ∈ x.warnings, w.isPointer = false)
    (hm : m.phase ≠ .afterPostamble) : m.Linked h := by
  induction hr with
  | nil => exact ⟨rfl, .nil, nofun, nofun, nofun⟩
  | @snoc h x m₁ m₂ _ hx ih =>
    have hfinal := hx.active
    have hl := ih (fun y hy => hw y (List.mem_append_left _ hy)) fun e => by simp [e, Phase.isFinal] at hfinal
    have hwx := hw x (by simp)
    by_cases hb : ∃ counts back, x.command = .beginPage counts back
    · obtain ⟨counts, back, hc⟩ := hb
      exact hl.beginPage hx hwx hc
    by_cases hp : ∃ p, x.command = .postamble p
    · obtain ⟨p, hc⟩ := hp
      exact hl.postamble hx hwx hc
    refine hl.other hx (fun counts back hc => hb ⟨counts, back, hc⟩) ?_ fun pointer id hc => hm ?_
    · cases hc : x.command <;> first | rfl | exact absurd ⟨_, hc⟩ hp
    · rw [hx.phase, hc, Phase.next]

/-! ## Reading from the end -/

theorem Does.finish {m m' : Machine σ} {x : Executed} (hx : m.Does x m') {pointer : Int32} {id : UInt8}
    (hc : x.command = .postPostamble pointer id) {p : Postamble} (hp : m.postamble = some p) :
    m'.postamble = some { p with postPointer := some pointer, id := some id } ∧
      (pointer ≠ pointerTo p.offset → .postPointer p.offset pointer ∈ x.warnings) := by
  have he := hx.executed
  rw [hc] at he
  simp only [execute, Machine.finish, reading, hp] at he
  split at he
  · have hm := congrArg (fun e : Effect σ => e.machine.postamble) (Except.ok.inj he)
    have hw := congrArg Effect.warnings (Except.ok.inj he)
    refine ⟨hm.symm, fun hne => ?_⟩
    change _ = x.warnings at hw
    rw [← hw]
    simp [hne]
  · cases he

theorem Does.pos_add_padding {m m' : Machine σ} {x : Executed} (hx : m.Does x m') {pointer : Int32} {id : UInt8}
    (hc : x.command = .postPostamble pointer id) (hid : id ≠ Opcode.padding)
    (hpad : ∀ b ∈ m'.cursor.rest, b = Opcode.padding) :
    m.cursor.pos + Trailer.lastCommandBytes + Trailer.paddingOf m.cursor.data = m.cursor.data.size := by
  have hread := hx.read
  rw [hc] at hread
  obtain ⟨-, bs, hp, ht⟩ := Cursor.command?_eq_some_iff.1 hread
  obtain ⟨-, xs, rfl, hxs⟩ := Opcode.of_takes ht
  have hlen : xs.length = 4 := Read.field_i32.length_eq hxs
  -- the last command ends with the format number, and then comes the padding
  have hbytes : m.cursor.data.data.toList =
      (m.cursor.data.data.toList.take m.cursor.pos ++ x.site.opcode :: xs) ++ id :: m'.cursor.rest := by
    have hrest := hp.rest
    rw [Cursor.rest] at hrest
    refine (List.take_append_drop m.cursor.pos _).symm.trans ?_
    rw [hrest]
    simp
  have hpadding := Trailer.paddingOf_eq hbytes hid hpad
  have h₁ := hp.pos
  have h₂ := m'.cursor.pos_add_remaining
  rw [hpadding, Cursor.length_rest, ← hx.data, ← h₂, h₁]
  simp [hlen, Trailer.lastCommandBytes]

/-- The last command is found before the padding, and through its pointer the postamble and the fonts. -/
theorem Linked.locate {m m' : Machine σ} {h : List Executed} {x : Executed} (hl : m.Linked h) (hx : m.Does x m')
    (hw : ∀ w ∈ x.warnings, w.isPointer = false) {pointer : Int32} {id : UInt8}
    (hc : x.command = .postPostamble pointer id) (hsize : m.cursor.data.size < 2 ^ 31) (hid : id ≠ Opcode.padding)
    (hpad : ∀ b ∈ m'.cursor.rest, b = Opcode.padding) : ∃ (t : Trailer) (c' : Cursor),
    (∀ c : Cursor, c.data = m.cursor.data → Trailer.locate c = .ok t c') ∧ m'.postamble = some t.postamble ∧
    t.fonts = fontsAfter h ∧ t.postPostOffset = m.cursor.pos ∧
    chain m.cursor.data t.postamble.offset t.postamble.lastPage =
      .ok (h.filterMap Executed.pageOffset?).reverse := by
  have hread := hx.read
  have ha := hx.allowed
  rw [hc] at hread ha
  have hphase : m.phase = .inPostamble := by
    cases hp : m.phase <;> simp [hp, Phase.allows] at ha ⊢
  obtain ⟨p, hpost, hlast, hbelow, -, post, site, post', hdata, hpos, hlt, hpread, hfonts⟩ := hl.after hphase
  have hend := hx.pos_add_padding hc hid hpad
  obtain ⟨last', hlast'⟩ := Trailer.readFonts_of_postPostamble hread
  have hfound := hfonts _ _ hlast'
  rw [List.append_nil] at hfound
  obtain ⟨hm, hwarn⟩ := hx.finish hc hpost
  have hpointer : pointer = Int32.ofNat post.pos := by
    by_cases hne : pointer = pointerTo p.offset
    · rw [hne, hpos]
      rfl
    · have := hw _ (hwarn hne)
      cases this
  refine ⟨{
    postamble := { p with postPointer := some pointer, id := some id }
    fonts := fontsAfter h, postPostOffset := m.cursor.pos, padding := Trailer.paddingOf m.cursor.data },
    last', fun c hcd => ?_, hm, rfl, rfl, ?_⟩
  · rw [← hcd] at hsize hend hdata ⊢
    exact Trailer.locate_eq hsize hread hcd.symm hend hpread hdata hpointer hlt hfound
  · rw [hlast]
    exact hl.links.chain_eq hsize fun o ho => hbelow o (List.mem_reverse.1 ho)

end Machine


/-- A stream that can be read to its end, with pointers that lead where they should, and with nothing but padding
after a last command that does not end like padding. -/
structure Consistent {σ : Type} [FontSource σ] (data : ByteArray) (source : σ) (doc : Document) : Prop where
  size : data.size < 2 ^ 31
  read : interpret data source = .ok doc
  pointers : ∀ w ∈ (interpretPartial data source).warnings, w.isPointer = false
  id : ∀ p, doc.postamble = some p → p.id ≠ some Opcode.padding
  padding : ∀ b ∈ (interpretPartial data source).interpreter.machine.cursor.rest, b = Opcode.padding

namespace Consistent

variable {σ : Type} [FontSource σ] {data : ByteArray} {source : σ} {doc : Document}

/-- **The end of the stream is found, from anywhere in it**, and is what was read there. -/
theorem exists_locate (hd : Consistent data source doc) : ∃ (t : Trailer) (c' : Cursor),
    (∀ c : Cursor, c.data = data → Trailer.locate c = .ok t c') ∧ doc.postamble = some t.postamble ∧
    t.fonts = fontsAfter (Machine.start data source).history ∧
    (∃ x pointer id, (Machine.start data source).history.getLast? = some x ∧
      x.command = .postPostamble pointer id ∧ x.site.offset = t.postPostOffset) ∧
    chain data t.postamble.offset t.postamble.lastPage = .ok (doc.pages.map (·.offset)).reverse := by
  obtain ⟨m, hr, hm, hi, hdoc⟩ := exists_runs_of_interpret hd.read
  have hpages : doc.pages.map (·.offset) =
      (Machine.start data source).history.filterMap Executed.pageOffset? := by
    rw [hdoc]
    exact hr.offsets_eq
  have hwarn := hd.pointers
  have hpad := hd.padding
  rw [hi] at hwarn hpad
  change ∀ w ∈ (Machine.start data source).history.flatMap Executed.warnings, w.isPointer = false at hwarn
  change ∀ b ∈ m.cursor.rest, b = Opcode.padding at hpad
  have hpost : doc.postamble = m.postamble := by
    rw [hdoc]
    rfl
  generalize hh : (Machine.start data source).history = h at hr hwarn hpages
  cases hr with
  | nil => cases hm
  | @snoc h x m₁ _ hr hx =>
    have hwarn : ∀ y ∈ h ++ [x], ∀ w ∈ y.warnings, w.isPointer = false := fun y hy w hw =>
      hwarn w (List.mem_flatMap.2 ⟨y, hy, hw⟩)
    have hdata : m₁.cursor.data = data := hr.data
    obtain ⟨hm₁, pointer, id, hc⟩ := Phase.eq_of_next_afterPostamble hx.allowed (hx.phase.symm.trans hm)
    have hl := hr.linked (fun y hy => hwarn y (List.mem_append_left _ hy)) (by rw [hm₁]; nofun)
    obtain ⟨p, hp⟩ := hl.after hm₁
    have hid : id ≠ Opcode.padding := fun e => hd.id _ (hpost.trans (hx.finish hc hp.postamble).1) (by rw [e])
    have hsize := hd.size
    rw [← hdata] at hsize ⊢
    obtain ⟨t, c', hlocate, htpost, htfonts, htoffset, htchain⟩ :=
      hl.locate hx (hwarn x (by simp)) hc hsize hid hpad
    refine ⟨t, c', hlocate, hpost.trans htpost, ?_, ⟨x, pointer, id, by simp, hc, hx.offset.trans htoffset.symm⟩, ?_⟩
    · rw [htfonts, fontsAfter_concat (by rw [hc]; rfl) (by rw [hc]; rfl)]
    · rw [htchain, hpages]
      simp [Executed.pageOffset?, hc]

end Consistent

/-- **What is found from the end is what was read from the front**: the pages, the postamble, the fonts after it and
the place of the last command. -/
theorem build_eq_of_consistent {σ : Type} [FontSource σ] {data : ByteArray} {source : σ} {doc : Document}
    (hd : Consistent data source doc) : ∃ index, (PageIndex.build data).1 = .ok index ∧
      index.offsets.toList = doc.pages.map (·.offset) ∧
      doc.postamble = some index.trailer.postamble ∧
      index.trailer.fonts = fontsAfter (Machine.start data source).history ∧
      ∃ x pointer id, (Machine.start data source).history.getLast? = some x ∧
        x.command = .postPostamble pointer id ∧ x.site.offset = index.trailer.postPostOffset := by
  obtain ⟨t, c', hlocate, hpost, hfonts, hlast, hchain⟩ := hd.exists_locate
  have hresult : Trailer.locate.result (.start data) = .ok t := Scan.result_eq (hlocate _ rfl)
  refine ⟨_, PageIndex.build_eq hresult hchain, ?_, hpost, hfonts, hlast⟩
  simp

/-- The document of the two pages. -/
def twoPagesDocument : Document := (interpretPartial twoPages NoFonts.mk).document

theorem consistent_twoPages : Consistent twoPages NoFonts.mk twoPagesDocument where
  size := by decide +kernel
  read := by
    have hok : (interpretPartial twoPages NoFonts.mk).failure.isNone = true := by decide +kernel
    unfold interpret Interpretation.complete
    unfold Interpretation.failure at hok
    split at hok <;> rename_i hr
    · rfl
    · cases hok
  pointers := by decide +kernel
  id p hp := by
    have hid : twoPagesDocument.postamble.map (·.id) = some (some 2) := by decide +kernel
    rw [hp, Option.map_some, Option.some.injEq] at hid
    rw [hid]
    decide
  padding := by decide +kernel

/-- The pages are found at 32 and 96. -/
theorem build_eq_of_consistent_twoPages : Consistent twoPages NoFonts.mk twoPagesDocument ∧
    twoPagesDocument.pages.map (·.offset) = [32, 96] ∧
    ∃ index, (PageIndex.build twoPages).1 = .ok index ∧
      index.offsets.toList = twoPagesDocument.pages.map (·.offset) ∧
      twoPagesDocument.postamble = some index.trailer.postamble ∧
      index.trailer.fonts = fontsAfter (Machine.start twoPages NoFonts.mk).history ∧
      ∃ x pointer id, (Machine.start twoPages NoFonts.mk).history.getLast? = some x ∧
        x.command = .postPostamble pointer id ∧ x.site.offset = index.trailer.postPostOffset :=
  ⟨consistent_twoPages, by decide +kernel, build_eq_of_consistent consistent_twoPages⟩

end Dvi
