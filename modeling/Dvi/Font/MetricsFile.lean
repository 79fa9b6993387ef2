import Dvi.Font.MetricsReader
import Dvi.Stream.Offset

/-!
# Metrics files

Each table of a metrics file is read where the sizes say that it is. Sizes that pass the check leave room for all
tables, so no read comes to the end of the file, and no other fault arises than a defect of the file.

* **`Metrics.parse_eq`**: what is read, with all fields looked up at their offsets;
* **`Metrics.exists_defect_of_parse`**: the only faults are defects;
* `Metrics.ofBytes`: the metrics in a file, or its defect.
-/

namespace Dvi.Metrics

/-- The sizes in a file. -/
def sizes (data : ByteArray) : Sizes := .ofFields (Vector.ofFn fun i => UInt16.ofNat (numberAt data (2 * i) 2))

/-- The front of the header of a file. -/
def header (data : ByteArray) : Header where
  checksum := UInt32.ofNat (numberAt data sizesBytes 4)
  designSize := wordAt data (sizesBytes + 4)

namespace Sizes

variable {s : Sizes} {name : String}

/-- Where the character table begins, and after it the tables of widths, heights and depths. -/
def charOffset (s : Sizes) : Nat := sizesBytes + 4 * s.header

/-- Where the widths begin, behind the table of characters. -/
def widthOffset (s : Sizes) : Nat := s.charOffset + 4 * s.charCount

/-- Where the heights begin, behind the widths. -/
def heightOffset (s : Sizes) : Nat := s.widthOffset + 4 * s.widths

/-- Where the depths begin, behind the heights. -/
def depthOffset (s : Sizes) : Nat := s.heightOffset + 4 * s.heights

/-- The tables of a file with these sizes. -/
def tables (s : Sizes) (data : ByteArray) : Tables where
  infos := (Vector.ofFn fun i : Fin s.charCount =>
    data.extract (s.charOffset + 4 * i) (s.charOffset + 4 * i + 4)).toArray
  widths := (Vector.ofFn fun i : Fin s.widths => wordAt data (s.widthOffset + 4 * i)).toArray
  heights := (Vector.ofFn fun i : Fin s.heights => wordAt data (s.heightOffset + 4 * i)).toArray
  depths := (Vector.ofFn fun i : Fin s.depths => wordAt data (s.depthOffset + 4 * i)).toArray

/-- The sizes fit together, and into a file of `fileBytes` bytes. -/
structure Fits (s : Sizes) (fileBytes : Nat) : Prop where
  header : 2 ≤ s.header
  last : s.last ≤ 255
  first : s.first ≤ s.last + 1
  widths : 1 ≤ s.widths
  heights : 1 ≤ s.heights
  depths : 1 ≤ s.depths
  total : s.total = 6 + s.header + s.charCount + s.widths + s.heights + s.depths + s.others
  complete : 4 * s.total ≤ fileBytes

/-- **Sizes are refused unless they fit.** -/
theorem check_cases (name : String) (s : Sizes) (fileBytes : Nat) :
    s.Fits fileBytes ∧ s.check name fileBytes = .ok () ∨
      ¬ s.Fits fileBytes ∧ ∃ d, s.check name fileBytes = refuse name d := by
  unfold check
  split
  · exact .inr ⟨fun h => absurd h.header (by omega), _, rfl⟩
  split
  · rename_i hrange
    refine .inr ⟨fun h => ?_, _, rfl⟩
    have hlast := h.last
    have hfirst := h.first
    simp only [Bool.or_eq_true, decide_eq_true_eq] at hrange
    omega
  split
  · rename_i hempty
    refine .inr ⟨fun h => ?_, _, rfl⟩
    have hwidths := h.widths
    have hheights := h.heights
    have hdepths := h.depths
    simp only [Bool.or_eq_true, decide_eq_true_eq] at hempty
    omega
  rename_i hheader hrange hempty
  simp only [Bool.or_eq_true, decide_eq_true_eq] at hrange hempty
  -- The range has been checked, so the difference is one.
  rw [difference_eq (by omega)]
  simp only [bind, Except.bind, pure, Except.pure]
  split
  · rename_i htotal
    exact .inr ⟨fun h => htotal h.total, _, rfl⟩
  split
  · exact .inr ⟨fun h => absurd h.complete (by omega), _, rfl⟩
  · rename_i htotal hcomplete
    refine .inl ⟨⟨?_, ?_, ?_, ?_, ?_, ?_, Decidable.not_not.1 htotal, ?_⟩, rfl⟩ <;> omega

theorem charOffset_le (s : Sizes) : s.charOffset ≤ s.widthOffset := Nat.le_add_right _ _

theorem widthOffset_le (s : Sizes) : s.widthOffset ≤ s.depthOffset + 4 * s.depths := by
  simp only [depthOffset, heightOffset]
  omega

theorem Fits.depthOffset_le {fileBytes : Nat} (h : s.Fits fileBytes) :
    s.depthOffset + 4 * s.depths ≤ fileBytes := by
  have htotal := h.total
  have hcomplete := h.complete
  simp only [depthOffset, heightOffset, widthOffset, charOffset, sizesBytes]
  omega

end Sizes

section FindsAt

variable {α : Type} {data : ByteArray} {o o' : Nat} {s : Sizes}

theorem findsAt_reading {r : Read α} {a : α} (h : FindsAt r data o a o') : FindsAt (reading r) data o a o' := by
  intro c hdata hpos
  obtain ⟨c', hr, h'⟩ := h c hdata hpos
  exact ⟨c', by rw [reading, hr], h'⟩

theorem findsAt_computing {x : Except Fault α} {a : α} (h : x = .ok a) : FindsAt (computing x) data o a o := by
  intro c hdata hpos
  exact ⟨c, by rw [h]; rfl, hdata, hpos⟩

theorem exists_result_bind {β : Type} {r : FileReader α} {a : α} (h : FindsAt r data o a o') {c : Cursor}
    (hdata : c.data = data) (hpos : c.pos = o) :
    ∃ c', c'.data = data ∧ c'.pos = o' ∧ ∀ f : α → FileReader β, result (r >>= f) c = result (f a) c' := by
  obtain ⟨c', hdata', hpos', hbind⟩ := h.bind_eq hdata hpos
  exact ⟨c', hdata', hpos', fun f => by simp only [result, hbind]⟩

theorem result_computing_bind {β : Type} (x : Except Fault α) (f : α → FileReader β) (c : Cursor) :
    result (computing x >>= f) c = x >>= fun a => result (f a) c := by
  cases x <;> rfl

theorem Sizes.findsAt_read (h : sizesBytes ≤ data.size) : FindsAt Sizes.read data 0 (sizes data) sizesBytes := by
  have hfields : FindsAt (Read.u16.replicate 12) data 0 _ (0 + 2 * 12) :=
    Read.findsAt_replicate (f := fun i => UInt16.ofNat (numberAt data (0 + 2 * i) 2)) fun i hi =>
      Read.findsAt_u16 (by unfold sizesBytes at h; omega)
  simp only [Nat.zero_add] at hfields
  exact hfields.map _

theorem Header.findsAt_read (hs : 2 ≤ s.header) (h : s.charOffset ≤ data.size) :
    FindsAt (Header.read s) data sizesBytes (header data) s.charOffset := by
  have hoffset : s.charOffset = sizesBytes + 4 + 4 + 4 * (s.header - 2) := by
    unfold Sizes.charOffset
    omega
  rw [hoffset] at h ⊢
  exact (findsAt_reading (Read.findsAt_u32 (by omega))).bind <|
    (findsAt_reading (Read.findsAt_i32 (by omega))).bind <|
    (findsAt_computing (difference_eq hs)).bind <|
    (findsAt_reading (Read.findsAt_take h)).map _

theorem Tables.findsAt_read (h : s.depthOffset + 4 * s.depths ≤ data.size) :
    FindsAt (Tables.read s) data s.charOffset (s.tables data) (s.depthOffset + 4 * s.depths) := by
  have hwidths : s.widthOffset = s.charOffset + 4 * s.charCount := rfl
  have hheights : s.heightOffset = s.widthOffset + 4 * s.widths := rfl
  have hdepths : s.depthOffset = s.heightOffset + 4 * s.heights := rfl
  have hinfos : FindsAt ((Read.take 4).replicate s.charCount) data s.charOffset _ s.widthOffset :=
    Read.findsAt_replicate (f := fun i => data.extract (s.charOffset + 4 * i) (s.charOffset + 4 * i + 4)) fun i hi =>
      Read.findsAt_take (by omega)
  have hwords {o k : Nat} (hk : o + 4 * k ≤ data.size) : FindsAt (Read.i32.replicate k) data o _ (o + 4 * k) :=
    Read.findsAt_replicate (f := fun i => wordAt data (o + 4 * i)) fun i hi => Read.findsAt_i32 (by omega)
  exact hinfos.bind <| (hwords (by omega)).bind <| (hwords (by omega)).bind <| (hwords h).map _

/-- **Every table is read where the sizes say that it is.** -/
theorem parse_eq (name : String) (data : ByteArray) : parse name data =
    if data.size < sizesBytes then refuse name (.tooShort data.size)
    else do
      (sizes data).check name data.size
      let chars ← ((sizes data).tables data).chars name (sizes data).first
      return {
        name
        checksum := (header data).checksum
        designSize := (header data).designSize
        firstChar := (sizes data).first
        chars := chars.toArray } := by
  unfold parse
  split
  · rfl
  rename_i hsize
  obtain ⟨c₁, hdata₁, hpos₁, hsizes⟩ := exists_result_bind (c := .start data)
    (findsAt_reading (Sizes.findsAt_read (Nat.le_of_not_lt hsize))) rfl rfl
  rw [read, hsizes, result_computing_bind]
  obtain ⟨hfits, hcheck⟩ | ⟨-, d, hcheck⟩ := (sizes data).check_cases name data.size
  · have hend := hfits.depthOffset_le
    obtain ⟨c₂, hdata₂, hpos₂, hheader⟩ := exists_result_bind
      (Header.findsAt_read hfits.header
        (Nat.le_trans (sizes data).charOffset_le (Nat.le_trans (sizes data).widthOffset_le hend))) hdata₁ hpos₁
    obtain ⟨c₃, -, -, htables⟩ := exists_result_bind (findsAt_reading (Tables.findsAt_read hend)) hdata₂ hpos₂
    rw [hcheck, ok_bind, ok_bind, hheader, htables, result_computing_bind]
    exact bind_congr fun _ => rfl
  · rw [hcheck, refuse_bind, refuse_bind]

end FindsAt

/-! ## Faults -/

theorem exists_mem_of_mapM_eq_error {α β ε : Type} {f : α → Except ε β} {l : List α} {e : ε}
    (h : l.mapM f = .error e) : ∃ a ∈ l, f a = .error e := by
  induction l with
  | nil => cases h
  | cons a l ih =>
    rw [List.mapM_cons] at h
    cases ha : f a with
    | error e' =>
      rw [ha] at h
      cases h
      exact ⟨a, .head l, ha⟩
    | ok b =>
      cases hl : l.mapM f with
      | error e' =>
        rw [ha, hl] at h
        cases h
        obtain ⟨a', hmem, ha'⟩ := ih hl
        exact ⟨a', .tail a hmem, ha'⟩
      | ok bs =>
        rw [ha, hl] at h
        cases h

/-- A character has the dimensions that its entry points to, and is refused if the entry points beyond a table. -/
theorem Tables.char_eq {info : ByteArray} {width packed : UInt8} (hwidth : info.data[0]? = some width)
    (hpacked : info.data[1]? = some packed) (name : String) (t : Tables) (code : Nat) : t.char name code info =
      if width.toNat = 0 then .ok none
      else match t.widths[width.toNat]?, t.heights[packed.toNat / 16]?, t.depths[packed.toNat % 16]? with
        | some width, some height, some depth => .ok (some { width, height, depth })
        | _, _, _ => refuse name (.badIndex code) := by
  simp only [char, entry, hwidth, hpacked, ok_bind]
  by_cases hzero : width.toNat = 0
  · rw [if_pos hzero, if_pos hzero]
    rfl
  have hsize {table : Array Int32} {i : Nat} : i ≥ table.size ↔ table[i]? = none := Array.getElem?_eq_none_iff.symm
  simp only [if_neg hzero, hsize, Bool.or_eq_true, decide_eq_true_eq]
  rcases t.widths[width.toNat]? with _ | w <;> rcases t.heights[packed.toNat / 16]? with _ | h <;>
    rcases t.depths[packed.toNat % 16]? with _ | d <;> rfl

theorem Sizes.exists_bytes_of_mem {s : Sizes} {data : ByteArray} (h : s.widthOffset ≤ data.size) {info : ByteArray}
    (hinfo : info ∈ (s.tables data).infos.toList) :
    ∃ width packed, info.data[0]? = some width ∧ info.data[1]? = some packed := by
  simp only [tables, Vector.toArray_ofFn, Array.toList_ofFn, List.mem_ofFn] at hinfo
  obtain ⟨i, rfl⟩ := hinfo
  have hsize : (data.extract (s.charOffset + 4 * i) (s.charOffset + 4 * i + 4)).data.size = 4 := by
    have hi := i.isLt
    have hwidths : s.widthOffset = s.charOffset + 4 * s.charCount := rfl
    change (data.extract (s.charOffset + 4 * i) (s.charOffset + 4 * i + 4)).size = 4
    rw [ByteArray.size_extract]
    omega
  exact ⟨_, _, Array.getElem?_eq_getElem (by omega), Array.getElem?_eq_getElem (by omega)⟩

/-- **A file is refused for its defects only**: all tables lie in it, and all indices in their tables. -/
theorem exists_defect_of_parse {name : String} {data : ByteArray} {f : Fault} (h : parse name data = .error f) :
    ∃ d, f = .error (.malformedMetrics name d) := by
  have hrefuse {α : Type} {d : MetricsDefect} (hd : (refuse name d : Except Fault α) = .error f) :
      ∃ d, f = .error (.malformedMetrics name d) := by
    cases hd
    exact ⟨d, rfl⟩
  rw [parse_eq] at h
  split at h
  · exact hrefuse h
  obtain ⟨hfits, hcheck⟩ | ⟨-, d, hcheck⟩ := (sizes data).check_cases name data.size
  · rw [hcheck, ok_bind] at h
    cases hchars : ((sizes data).tables data).chars name (sizes data).first with
    | ok chars =>
      rw [hchars] at h
      cases h
    | error f' =>
      rw [hchars] at h
      cases h
      obtain ⟨⟨info, i⟩, hmem, hchar⟩ := exists_mem_of_mapM_eq_error hchars
      obtain ⟨width, packed, hwidth, hpacked⟩ := Sizes.exists_bytes_of_mem
        (Nat.le_trans (sizes data).widthOffset_le hfits.depthOffset_le) (List.fst_mem_of_mem_zipIdx hmem)
      change Tables.char _ _ _ info = _ at hchar
      rw [Tables.char_eq hwidth hpacked] at hchar
      split at hchar
      · cases hchar
      split at hchar
      · cases hchar
      · exact hrefuse hchar
  · rw [hcheck, refuse_bind] at h
    exact hrefuse h

theorem isSome_defect? {name : String} {data : ByteArray} {f : Fault} (h : parse name data = .error f) :
    f.defect?.isSome = true := by
  obtain ⟨d, rfl⟩ := exists_defect_of_parse h
  rfl

/-- The metrics in a file, or what is wrong with it; the caller gives the name. -/
def ofBytes (name : String) (data : ByteArray) : Except MetricsDefect Metrics :=
  match h : parse name data with
  | .ok m => .ok m
  | .error f => .error (f.defect?.get (isSome_defect? h))

theorem ofBytes_eq_ok_iff {name : String} {data : ByteArray} {m : Metrics} :
    ofBytes name data = .ok m ↔ parse name data = .ok m := by
  unfold ofBytes
  split <;> rename_i h <;> simp [h]

theorem ofBytes_of_parse_eq_error {name : String} {data : ByteArray} {d : MetricsDefect}
    (h : parse name data = .error (.error (.malformedMetrics name d))) : ofBytes name data = .error d := by
  unfold ofBytes
  split <;> rename_i h' <;> cases h.symm.trans h'
  rfl

end Dvi.Metrics
