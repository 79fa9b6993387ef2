import Dvi.Proofs.Machine.Linked
import Dvi.Proofs.Machine.Selected
import Dvi.Proofs.Machine.Steps
import Dvi.Proofs.Machine.Truncation

/-!
# Coherence

What an interpreter holds fits together, whatever its stream and however far it has come: the phase, the page under
way, the stack, the pages, the fonts and the records.

* `Machine.Runs.sites`: commands stand one behind the other;
* `Machine.Runs.fonts`: the fonts are the definitions, each with the first of its number;
* `Interpreter.Coherent`: what fits together. **`Interpreter.coherent_steps`**: it does after any number of steps.
-/

namespace Dvi

open Read

theorem Postamble.yields_id (offset : Nat) : (Postamble.read offset).Yields fun p => p.id = none :=
  .bind fun _ => .bind fun _ => .bind fun _ => .bind fun _ => .bind fun _ => .bind fun _ => .bind fun _ =>
    .bind fun _ => .pure rfl

namespace Machine

variable {σ : Type} [FontSource σ] {m m' : Machine σ} {x : Executed} {h : List Executed}

/-! ## Places of commands -/

/-- **Commands stand one behind the other**, each where its opcode is. -/
theorem Runs.sites (hr : m.Runs h m') : (h.map (·.site.offset)).Pairwise (· < ·) ∧
    (∀ x ∈ h, x.site.offset < m'.cursor.pos) ∧ ∀ x ∈ h, m.cursor.data[x.site.offset]? = some x.site.opcode := by
  induction hr with
  | nil => exact ⟨.nil, nofun, nofun⟩
  | @snoc h x m₁ m₂ hr hx ih =>
    obtain ⟨hpairs, hbelow, hbytes⟩ := ih
    have hlt : x.site.offset < m₂.cursor.pos := hx.offset ▸ hx.pos_lt
    have hbyte : m.cursor.data[x.site.offset]? = some x.site.opcode := by
      have hpeek : m₁.cursor.data[m₁.cursor.pos]? = _ := Cursor.peek_of_command? hx.read
      rwa [hr.data, ← hx.offset] at hpeek
    simp only [List.map_append, List.map_cons, List.map_nil, List.pairwise_append, List.mem_append,
      List.mem_singleton, List.mem_map]
    refine ⟨⟨hpairs, List.pairwise_singleton _ _, ?_⟩, ?_, ?_⟩
    · rintro _ ⟨y, hy, rfl⟩ _ rfl
      exact hx.offset ▸ hbelow y hy
    · rintro y (hy | rfl)
      · exact Nat.lt_trans (hbelow y hy) hx.pos_lt
      · exact hlt
    · rintro y (hy | rfl)
      · exact hbytes y hy
      · exact hbyte

theorem Does.opcode_of_pageOffset? (hx : m.Does x m') {offset : Nat} (ho : x.pageOffset? = some offset) :
    x.site.offset = offset ∧ x.site.opcode = 139 := by
  refine ⟨Executed.offset_of_pageOffset? ho, ?_⟩
  obtain ⟨-, bs, -, ht⟩ := Cursor.command?_eq_some_iff.1 hx.read
  unfold Executed.pageOffset? at ho
  split at ho
  · rename_i hc
    rw [hc] at ht
    rw [← Opcode.toByte_ofByte x.site.opcode, (Opcode.of_takes ht).1]
    rfl
  · cases ho

theorem Does.opcode_of_definition? (hx : m.Does x m') {f : FontDefinition} (hf : x.command.definition? = some f) :
    f.offset = x.site.offset ∧ 243 ≤ x.site.opcode ∧ x.site.opcode ≤ 246 := by
  obtain ⟨ho, bs, -, ht⟩ := Cursor.command?_eq_some_iff.1 hx.read
  rw [Command.eq_of_definition? hf] at ht
  obtain ⟨w, hw, hread⟩ := Opcode.of_takes ht
  refine ⟨(FontDefinition.yields_offset _ _ hread).trans ho.symm, ?_⟩
  rw [← Opcode.toByte_ofByte x.site.opcode, hw]
  cases w <;> decide

/-- **The offsets that commands give increase**, if they are where the commands stand. -/
theorem Runs.pairwise_filterMap (hr : m.Runs h m') {f : Executed → Option Nat}
    (hf : ∀ x ∈ h, ∀ n, f x = some n → n = x.site.offset) : (h.filterMap f).Pairwise (· < ·) := by
  refine List.pairwise_filterMap.2 ((List.pairwise_map.1 hr.sites.1).imp_of_mem ?_)
  intro x y hx hy hlt n hn k hk
  rw [hf x hx n hn, hf y hy k hk]
  exact hlt

/-! ## Fonts -/

theorem Runs.forall_mem {P : Executed → Prop} (hr : m.Runs h m')
    (hP : ∀ {m₁ m₂ : Machine σ} {x : Executed}, m₁.Does x m₂ → P x) : ∀ x ∈ h, P x := by
  induction hr with
  | nil => exact nofun
  | snoc _ hx ih =>
    intro y hy
    obtain hy | rfl := List.mem_append.1 hy |>.imp_right List.mem_singleton.1
    · exact ih y hy
    · exact hP hx

/-- **The fonts are definitions that were read**, in the order of the stream, under their numbers. -/
theorem Runs.fonts (hr : m.Runs h m') (hm : m.fonts.entries = []) :
    m'.fonts.keys = m'.fonts.values.map (·.id) ∧
      m'.fonts.values.Sublist (h.filterMap (·.command.definition?)) := by
  induction hr with
  | nil => simp [Table.keys, Table.values, hm]
  | @snoc h x m₁ m₂ _ hx ih =>
    obtain ⟨hkeys, hsub⟩ := ih
    rw [List.filterMap_append]
    rcases hc : x.command.definition? with _ | f
    · rw [(hx.fonts_eq hc).1]
      exact ⟨hkeys, hsub.trans (List.sublist_append_left _ _)⟩
    rw [hx.fonts_of_definition? hc]
    split
    · exact ⟨hkeys, hsub.trans (List.sublist_append_left _ _)⟩
    · rename_i hnew
      simp only [Table.keys, Table.values, Table.entries_insert_of_not_contains hnew, List.map_append,
        List.filterMap_cons, hc]
      exact ⟨congrArg (· ++ [f.id]) hkeys, hsub.append (List.Sublist.refl _)⟩

/-! ## Stack and records -/

theorem Runs.stack_eq_nil (hr : m.Runs h m') (hm : m.phase ≠ .inPage → m.graphics.stack = []) :
    m'.phase ≠ .inPage → m'.graphics.stack = [] := by
  induction hr with
  | nil => exact hm
  | @snoc h x m₁ m₂ _ hx ih =>
    intro hphase
    rw [hx.phase] at hphase
    obtain ⟨hp, hc⟩ | ⟨hp, hc⟩ | ⟨hp, counts, back, hc⟩ | ⟨hp, hn, hd, he, hb⟩ := Phase.cases_of_allows hx.allowed
    · rw [next_of_isOnPage hc] at hphase
      exact absurd hp hphase
    · have hexec := hx.executed
      rw [hc] at hexec
      simp only [execute] at hexec
      split at hexec
      · rename_i hdepth
        rw [graphics_of_execute hx.executed (by rw [hc]; rfl) (by simp [hc])]
        rwa [Graphics.depth_eq, List.length_eq_zero_iff] at hdepth
      · cases hexec
    · rw [hc] at hphase
      exact absurd rfl hphase
    · rw [graphics_of_execute hx.executed hd hb]
      exact ih hp

theorem Runs.isComplete_iff {data : ByteArray} {source : σ} (hr : (start data source).Runs h m) :
    (m.postamble.any (·.id.isSome) = true ↔ m.phase = .afterPostamble) ∧
      (m.phase = .inPostamble → m.postamble.isSome = true) := by
  induction hr with
  | nil => simp [start]
  | @snoc h x m₁ m₂ _ hx ih =>
    obtain ⟨hcomplete, hsome⟩ := ih
    have ha := hx.allowed
    rw [hx.phase, hx.records.2.1]
    cases hc : x.command with
    | postamble p =>
      obtain ⟨-, bs, -, ht⟩ := Cursor.command?_eq_some_iff.1 hx.read
      rw [hc] at ht
      simp [Command.amend, Phase.next, Postamble.yields_id _ (Opcode.of_takes ht).2]
    | postPostamble pointer id =>
      have hphase : m₁.phase = .inPostamble := by
        rw [hc] at ha
        cases hp : m₁.phase <;> simp_all [Phase.allows]
      obtain ⟨p, hp⟩ := Option.isSome_iff_exists.1 (hsome hphase)
      simp [Command.amend, Phase.next, hp]
    | _ => cases hp : m₁.phase <;> simp_all [Phase.allows, Phase.next, Command.amend]

end Machine

/-! ## Interpreters -/

namespace Interpreter

variable {σ : Type} [FontSource σ] {data : ByteArray} {source : σ} {i : Interpreter σ PageCollector} {m : Machine σ}
  {h : List Executed}

omit [FontSource σ] in
/-- An interpreter of `data` holds what fits together. -/
structure Coherent (data : ByteArray) (i : Interpreter σ PageCollector) : Prop where
  /-- on a page there is one under way -/
  underway : i.machine.phase = .inPage → i.device.current.isSome = true
  /-- elsewhere there is none, and the stack is empty; reading may have failed on a page -/
  closed : i.machine.phase ≠ .inPage → i.machine.phase ≠ .failed →
    i.device.current = none ∧ i.machine.graphics.stack = []
  /-- pages stand one behind the other, each where it begins -/
  pages : (i.device.pages.map (·.offset)).Pairwise (· < ·)
  beginPage : ∀ p ∈ i.device.pages, data[p.offset]? = some 139
  /-- fonts stand one behind the other, each under its number and where it is defined -/
  keys : i.machine.fonts.keys = i.machine.fonts.values.map (·.id)
  fonts : (i.machine.fonts.values.map (·.offset)).Pairwise (· < ·)
  defineFont : ∀ f ∈ i.machine.fonts.values, ∃ b, data[f.offset]? = some b ∧ 243 ≤ b ∧ b ≤ 246
  /-- the font, those on pages, and those of characters were selected and defined before -/
  font : ∀ id, i.machine.graphics.font = some id → id ∈ i.machine.fonts.keys
  typeset : ∀ p ∈ i.device.pages, p.Typeset i.machine.fonts.keys
  /-- the document is complete when the last command was executed -/
  complete : i.document.isComplete = true ↔ i.machine.phase = .afterPostamble

theorem coherent_of_runs (hr : (Machine.start data source).Runs h m) :
    ((start data source {}).advance h m).Coherent data := by
  have hcollects := hr.collects
  have hoffsets : ((start data source ({} : PageCollector)).advance h m).device.pages.map (·.offset) =
      h.filterMap Executed.pageOffset? := hr.offsets_eq
  obtain ⟨hkeys, hsub⟩ := hr.fonts rfl
  obtain ⟨-, -, hbytes⟩ := hr.sites
  have hpage : ∀ x ∈ h, ∀ n, x.pageOffset? = some n → x.site.offset = n ∧ x.site.opcode = 139 :=
    hr.forall_mem fun hx _ => hx.opcode_of_pageOffset?
  have hfont : ∀ x ∈ h, ∀ f, x.command.definition? = some f →
      f.offset = x.site.offset ∧ 243 ≤ x.site.opcode ∧ x.site.opcode ≤ 246 :=
    hr.forall_mem fun hx _ => hx.opcode_of_definition?
  exact {
    underway := fun hp => Option.isSome_iff_exists.2 (hcollects.underway hp)
    closed := fun hp _ => ⟨hcollects.current_eq_none hp, hr.stack_eq_nil (fun _ => rfl) hp⟩
    pages := by
      rw [hoffsets]
      exact hr.pairwise_filterMap fun x hx n hn => (hpage x hx n hn).1.symm
    beginPage := fun p hp => by
      have hmem := List.mem_map_of_mem (f := (·.offset)) hp
      rw [hoffsets] at hmem
      obtain ⟨x, hx, ho⟩ := List.mem_filterMap.1 hmem
      obtain ⟨hsite, hopcode⟩ := hpage x hx _ ho
      rw [← hsite, ← hopcode]
      exact hbytes x hx
    keys := hkeys
    fonts := by
      refine List.Pairwise.sublist (hsub.map _) ?_
      rw [List.map_filterMap]
      refine hr.pairwise_filterMap fun x hx n hn => ?_
      obtain ⟨f, hf, rfl⟩ := Option.map_eq_some_iff.1 hn
      exact (hfont x hx f hf).1
    defineFont := fun f hf => by
      obtain ⟨x, hx, hc⟩ := List.mem_filterMap.1 (hsub.subset hf)
      obtain ⟨hsite, hopcode⟩ := hfont x hx f hc
      rw [hsite]
      exact ⟨_, hbytes x hx, hopcode⟩
    font := hr.selected nofun
    typeset := fun p hp => by
      obtain hp | hp := List.mem_append.1 hp
      · exact (hcollects.closed p (List.mem_reverse.1 hp)).typeset
      · obtain ⟨b, hb⟩ := hcollects.current p (Option.mem_toList.1 hp)
        exact hb.typeset.1
    complete := hr.isComplete_iff.1 }

theorem Coherent.of_failure (hi : i.Coherent data) {err : Error} {e : Effect σ}
    (hs : i.machine.step = (.error err, e)) : ({ i with machine := e.machine } : Interpreter σ _).Coherent data := by
  have hfailed := Machine.failed_of_step hs
  have hactive := Machine.active_of_step_eq_error hs
  obtain ⟨-, -, c, site, -, he⟩ := Machine.of_step_eq_error hs
  rw [he]
  refine { hi with underway := nofun, closed := fun _ h => absurd rfl h, complete := ?_ }
  refine iff_of_false (fun h => ?_) nofun
  rw [hi.complete.1 h] at hactive
  cases hactive

/-- **After any number of steps through any stream, what the interpreter holds fits together**, also after a step that
has failed. -/
theorem coherent_steps (data : ByteArray) (source : σ) (n : Nat) :
    ((start data source ({} : PageCollector)).steps n).Coherent data := by
  obtain ⟨m, hr, hsteps | ⟨err, e, hs, hsteps⟩⟩ := (start data source ({} : PageCollector)).exists_runs_of_steps n
  · rw [hsteps]
    exact coherent_of_runs hr
  · rw [hsteps]
    exact (coherent_of_runs hr).of_failure hs

end Interpreter

end Dvi
