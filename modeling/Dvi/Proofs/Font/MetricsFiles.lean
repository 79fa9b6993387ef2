import Dvi.Font.MetricsFile
import Mathlib.Data.Set.Card

/-!
# The files that hold metrics

Whether a file holds metrics, and which, can be told from numbers at fixed places of it.

* `Metrics.declared`: the sizes, each at its own place; `Metrics.IsMetricsFile`: sizes and indices fit;
* **`Metrics.parse_eq_ok`**: what such a file holds; **`Metrics.parse_eq_ok_iff`**: no other file is accepted;
* `Metrics.Matters`: the bytes that the metrics come from; **`Metrics.parse_reads`**: every word is the one at its
  place, and no other byte counts.
-/

namespace Dvi.Metrics

variable {name : String} {data data' : ByteArray} {s : Sizes}

/-! ## Sizes and indices -/

/-- The sizes that a file declares in its first bytes. -/
def declared (data : ByteArray) : Sizes where
  total := numberAt data 0 2
  header := numberAt data 2 2
  first := numberAt data 4 2
  last := numberAt data 6 2
  widths := numberAt data 8 2
  heights := numberAt data 10 2
  depths := numberAt data 12 2
  others := numberAt data 14 2 + numberAt data 16 2 + numberAt data 18 2 + numberAt data 20 2 + numberAt data 22 2

theorem sizes_eq (data : ByteArray) : sizes data = declared data := by
  have hsize (o : Nat) : (UInt16.ofNat (numberAt data o 2)).toNat = numberAt data o 2 :=
    UInt16.toNat_ofNat_of_lt' (numberAt_lt data o 2)
  simp [sizes, declared, Sizes.ofFields, hsize]

namespace Sizes

/-- Where the entry of a character begins, given the place of the entry in the table. -/
def entryOffset (s : Sizes) (i : Nat) : Nat := s.charOffset + 4 * i

/-- The index of the width of a character. -/
def widthIndex (s : Sizes) (data : ByteArray) (i : Nat) : Nat := numberAt data (s.entryOffset i) 1

/-- The indices of height and depth share a byte. -/
def heightIndex (s : Sizes) (data : ByteArray) (i : Nat) : Nat := numberAt data (s.entryOffset i + 1) 1 / 16

/-- The index of the depth, which is the lower half of that byte. -/
def depthIndex (s : Sizes) (data : ByteArray) (i : Nat) : Nat := numberAt data (s.entryOffset i + 1) 1 % 16

/-- The font lacks the character, or all indices lie in their tables. -/
def EntryFits (s : Sizes) (data : ByteArray) (i : Nat) : Prop :=
  s.widthIndex data i ≠ 0 →
    s.widthIndex data i < s.widths ∧ s.heightIndex data i < s.heights ∧ s.depthIndex data i < s.depths

instance (s : Sizes) (data : ByteArray) (i : Nat) : Decidable (s.EntryFits data i) :=
  inferInstanceAs (Decidable (_ → _))

/-- The dimensions of a character. -/
def charAt (s : Sizes) (data : ByteArray) (i : Nat) : Option CharMetrics :=
  if s.widthIndex data i = 0 then none
  else some {
    width := wordAt data (s.widthOffset + 4 * s.widthIndex data i)
    height := wordAt data (s.heightOffset + 4 * s.heightIndex data i)
    depth := wordAt data (s.depthOffset + 4 * s.depthIndex data i) }

/-- Where the dimensions stand, these four sizes tell. -/
theorem charAt_of_sameLayout {s s' : Sizes} (hheader : s'.header = s.header) (hcount : s'.charCount = s.charCount)
    (hwidths : s'.widths = s.widths) (hheights : s'.heights = s.heights) (data : ByteArray) (i : Nat) :
    s'.charAt data i = s.charAt data i := by
  have hentry : s'.entryOffset i = s.entryOffset i := by rw [entryOffset, entryOffset, charOffset, charOffset, hheader]
  have hwidth : s'.widthOffset = s.widthOffset := by
    rw [widthOffset, widthOffset, charOffset, charOffset, hheader, hcount]
  have hheight : s'.heightOffset = s.heightOffset := by rw [heightOffset, heightOffset, hwidth, hwidths]
  have hdepth : s'.depthOffset = s.depthOffset := by rw [depthOffset, depthOffset, hheight, hheights]
  rw [charAt, charAt, widthIndex, widthIndex, heightIndex, heightIndex, depthIndex, depthIndex, hentry, hwidth, hheight,
    hdepth]

end Sizes

/-- The sizes of a file fit, and all entries of its character table. -/
structure IsMetricsFile (data : ByteArray) : Prop where
  front : sizesBytes ≤ data.size
  sizes : (declared data).Fits data.size
  entries : ∀ code, (declared data).first ≤ code → code ≤ (declared data).last →
    (declared data).EntryFits data (code - (declared data).first)

/-! ## Characters -/

theorem getElem?_words {o k i : Nat} : (Vector.ofFn fun j : Fin k => wordAt data (o + 4 * j)).toArray[i]? =
    if i < k then some (wordAt data (o + 4 * i)) else none := by
  by_cases h : i < k <;> simp [h]

theorem exists_byte_of_entry {o k : Nat} (hk : k < 4) (h : o + 4 ≤ data.size) :
    ∃ b, (data.extract o (o + 4)).data[k]? = some b ∧ b.toNat = numberAt data (o + k) 1 := by
  have hsize : data.data.size = data.size := rfl
  have hlt : o + k < data.data.size := by omega
  have hb : data[o + k]? = some data.data[o + k] := Array.getElem?_eq_getElem hlt
  refine ⟨data.data[o + k], ?_, (numberAt_one hb).symm⟩
  rw [ByteArray.data_extract, Array.getElem?_extract, if_pos (by omega), Array.getElem?_eq_getElem hlt]

/-- **An entry of the character table gives the dimensions at their places**, or is refused. -/
theorem tables_char (h : s.widthOffset ≤ data.size) {i : Nat} (hi : i < s.charCount) (name : String) (code : Nat) :
    (s.tables data).char name code (data.extract (s.charOffset + 4 * i) (s.charOffset + 4 * i + 4)) =
      if s.EntryFits data i then .ok (s.charAt data i) else refuse name (.badIndex code) := by
  have hend : s.charOffset + 4 * i + 4 ≤ data.size := by
    have hwidths : s.widthOffset = s.charOffset + 4 * s.charCount := rfl
    omega
  obtain ⟨width, hwidth, hwidthIndex⟩ := exists_byte_of_entry (k := 0) (by decide) hend
  obtain ⟨packed, hpacked, hpackedIndex⟩ := exists_byte_of_entry (k := 1) (by decide) hend
  have hw : width.toNat = s.widthIndex data i := hwidthIndex
  have hh : packed.toNat / 16 = s.heightIndex data i := by rw [hpackedIndex, Sizes.heightIndex, Sizes.entryOffset]
  have hd : packed.toNat % 16 = s.depthIndex data i := by rw [hpackedIndex, Sizes.depthIndex, Sizes.entryOffset]
  rw [Tables.char_eq hwidth hpacked, hw, hh, hd]
  simp only [Sizes.tables, getElem?_words, Sizes.EntryFits, Sizes.charAt]
  by_cases hzero : s.widthIndex data i = 0
  · simp [hzero]
  by_cases hwidth : s.widthIndex data i < s.widths <;> by_cases hheight : s.heightIndex data i < s.heights <;>
    by_cases hdepth : s.depthIndex data i < s.depths <;> simp [hzero, hwidth, hheight, hdepth]

theorem tables_chars (name : String) (s : Sizes) (data : ByteArray) (first : Nat) :
    (s.tables data).chars name first = (List.range s.charCount).mapM fun i =>
      (s.tables data).char name (first + i) (data.extract (s.charOffset + 4 * i) (s.charOffset + 4 * i + 4)) := by
  have hinfos : (s.tables data).infos.toList.zipIdx = (List.range s.charCount).map fun i =>
      (data.extract (s.charOffset + 4 * i) (s.charOffset + 4 * i + 4), i) := by
    refine List.ext_getElem (by simp [Sizes.tables]) fun i h₁ h₂ => ?_
    simp [Sizes.tables]
  rw [Tables.chars, hinfos, List.mapM_map]
  rfl

theorem mapM_eq_ok {α β ε : Type} {f : α → Except ε β} {g : α → β} {l : List α} (h : ∀ a ∈ l, f a = .ok (g a)) :
    l.mapM f = .ok (l.map g) := by
  induction l with
  | nil => rfl
  | cons a l ih =>
    rw [List.mapM_cons, h a (.head l), ih fun a' ha' => h a' (.tail a ha')]
    rfl

theorem exists_of_mapM_eq_ok {α β ε : Type} {f : α → Except ε β} {l : List α} {bs : List β} (h : l.mapM f = .ok bs) :
    ∀ a ∈ l, ∃ b, f a = .ok b := by
  induction l generalizing bs with
  | nil => exact fun a ha => absurd ha List.not_mem_nil
  | cons a l ih =>
    rw [List.mapM_cons] at h
    cases ha : f a with
    | error e =>
      rw [ha] at h
      cases h
    | ok b =>
      cases hl : l.mapM f with
      | error e =>
        rw [ha, hl] at h
        cases h
      | ok bs' =>
        intro a' ha'
        obtain rfl | ha' := List.mem_cons.1 ha'
        · exact ⟨b, ha⟩
        · exact ih hl a' ha'

/-! ## Files -/

/-- The metrics that a file holds. -/
def held (name : String) (data : ByteArray) : Metrics where
  name := name
  checksum := UInt32.ofNat (numberAt data 24 4)
  designSize := wordAt data 28
  firstChar := (declared data).first
  chars := ((List.range (declared data).charCount).map ((declared data).charAt data)).toArray

/-- **A file that fits is accepted**, and holds what stands at its places. -/
theorem parse_eq_ok (h : IsMetricsFile data) (name : String) : parse name data = .ok (held name data) := by
  have hend := Nat.le_trans (declared data).widthOffset_le h.sizes.depthOffset_le
  have hchars : ((declared data).tables data).chars name (declared data).first =
      .ok ((List.range (declared data).charCount).map ((declared data).charAt data)) := by
    rw [tables_chars]
    refine mapM_eq_ok fun i hi => ?_
    have hi := List.mem_range.1 hi
    have hentry := h.entries ((declared data).first + i) (Nat.le_add_right _ _) (by
      unfold Sizes.charCount at hi
      omega)
    rw [Nat.add_sub_cancel_left] at hentry
    rw [tables_char hend hi, if_pos hentry]
  obtain ⟨-, hcheck⟩ | ⟨hfits, -⟩ := (declared data).check_cases name data.size
  · rw [parse_eq, if_neg (Nat.not_lt.2 h.front), sizes_eq, hcheck, ok_bind, hchars, ok_bind]
    rfl
  · exact absurd h.sizes hfits

theorem isMetricsFile_of_parse {m : Metrics} (h : parse name data = .ok m) : IsMetricsFile data := by
  rw [parse_eq, sizes_eq] at h
  split at h
  · cases h
  rename_i hfront
  obtain ⟨hfits, hcheck⟩ | ⟨-, d, hcheck⟩ := (declared data).check_cases name data.size
  · rw [hcheck, ok_bind] at h
    have hend := Nat.le_trans (declared data).widthOffset_le hfits.depthOffset_le
    cases hchars : ((declared data).tables data).chars name (declared data).first with
    | error f =>
      rw [hchars] at h
      cases h
    | ok chars =>
      rw [tables_chars] at hchars
      refine ⟨Nat.le_of_not_lt hfront, hfits, fun code hfirst hlast => ?_⟩
      have hi : code - (declared data).first < (declared data).charCount := by
        unfold Sizes.charCount
        omega
      obtain ⟨c, hc⟩ := exists_of_mapM_eq_ok hchars _ (List.mem_range.2 hi)
      rw [tables_char hend hi] at hc
      split at hc
      · assumption
      · cases hc
  · rw [hcheck, refuse_bind] at h
    cases h

/-- **A file is accepted exactly if its sizes and indices fit.** Every other file is malformed: no read runs short, no
difference is negative, and no index lies beyond its table. -/
theorem parse_eq_ok_iff (name : String) (data : ByteArray) :
    ((∃ m, parse name data = .ok m) ↔ IsMetricsFile data) ∧
      (∀ m, parse name data = .ok m → ofBytes name data = .ok m) ∧
      ∀ f, parse name data = .error f → ∃ d, f = .error (.malformedMetrics name d) ∧ ofBytes name data = .error d := by
  refine ⟨⟨fun ⟨_, h⟩ => isMetricsFile_of_parse h, fun h => ⟨_, parse_eq_ok h name⟩⟩, fun _ => ofBytes_eq_ok_iff.2,
    fun f h => ?_⟩
  obtain ⟨d, rfl⟩ := exists_defect_of_parse h
  exact ⟨d, rfl, ofBytes_of_parse_eq_error h⟩

/-! ## Words -/

theorem char?_held (name : String) (data : ByteArray) (code : UInt32) :
    (held name data).char? code =
      if (declared data).first ≤ code.toNat ∧ code.toNat ≤ (declared data).last then
        (declared data).charAt data (code.toNat - (declared data).first)
      else none := by
  have hcount : (declared data).charCount = (declared data).last + 1 - (declared data).first := rfl
  simp only [char?, held]
  by_cases hfirst : (declared data).first ≤ code.toNat
  · by_cases hlast : code.toNat ≤ (declared data).last
    · have hi : code.toNat - (declared data).first < (declared data).charCount := by omega
      simp [hfirst, hlast, hi]
    · have hi : (declared data).charCount ≤ code.toNat - (declared data).first := by omega
      simp [hfirst, hlast, hi]
  · simp [hfirst]

theorem card_filter_range (p : Nat → Bool) (n : Nat) :
    ((Finset.range n).filter fun i => p i = true).card = (List.range n).countP p := by
  induction n with
  | zero => rfl
  | succ n ih =>
    rw [Finset.range_add_one, Finset.filter_insert, List.range_succ, List.countP_append, ← ih]
    by_cases h : p n = true <;> simp [h]

theorem charCount_held (hfits : (declared data).Fits data.size) (name : String) :
    (held name data).charCount = {code : UInt32 | ((held name data).char? code).isSome = true}.ncard := by
  have hlt {i : Nat} (hi : i < (declared data).charCount) : (declared data).first + i < UInt32.size := by
    have hlast := hfits.last
    have hsize : UInt32.size = 4294967296 := rfl
    unfold Sizes.charCount at hi
    omega
  -- The codes are the places of the table, counted from the first code on.
  have hcodes : {code : UInt32 | ((held name data).char? code).isSome = true} =
      (fun i => UInt32.ofNat ((declared data).first + i)) ''
        ((Finset.range (declared data).charCount).filter fun i => ((declared data).charAt data i).isSome = true) := by
    ext code
    simp only [Set.mem_ofPred_eq, char?_held, Set.mem_image, Finset.mem_coe, Finset.mem_filter, Finset.mem_range]
    constructor
    · intro hcode
      split at hcode
      · rename_i hrange
        refine ⟨code.toNat - (declared data).first, ⟨?_, hcode⟩, ?_⟩
        · unfold Sizes.charCount
          omega
        · rw [Nat.add_sub_cancel' hrange.1, UInt32.ofNat_toNat]
      · cases hcode
    · rintro ⟨i, ⟨hi, hpresent⟩, rfl⟩
      have hcode := UInt32.toNat_ofNat_of_lt' (hlt hi)
      rw [hcode, Nat.add_sub_cancel_left, if_pos]
      · exact hpresent
      · unfold Sizes.charCount at hi
        omega
  rw [hcodes, Set.InjOn.ncard_image, Set.ncard_coe_finset]
  · rw [charCount, held, List.countP_toArray, List.countP_map, ← card_filter_range]
    simp only [Function.comp_apply]
  · intro i hi j hj hij
    simp only [Finset.coe_filter, Finset.mem_range, Set.mem_ofPred_eq] at hi hj
    have htoNat := congrArg UInt32.toNat hij
    simp only [UInt32.toNat_ofNat_of_lt' (hlt hi.1), UInt32.toNat_ofNat_of_lt' (hlt hj.1)] at htoNat
    omega

/-- The bytes that the metrics in a file come from. -/
inductive Matters (data : ByteArray) : Nat → Prop
  /-- the sizes of the header and the range, and how many widths and heights there are -/
  | sizes {o : Nat} (h : 2 ≤ o) (h' : o < 12) : Matters data o
  /-- the check sum and the design size -/
  | header {o : Nat} (h : 24 ≤ o) (h' : o < 32) : Matters data o
  | widthIndex {i : Nat} (hi : i < (declared data).charCount) : Matters data ((declared data).entryOffset i)
  | otherIndices {i : Nat} (hi : i < (declared data).charCount) (hw : (declared data).widthIndex data i ≠ 0) :
    Matters data ((declared data).entryOffset i + 1)
  | width {i k : Nat} (hi : i < (declared data).charCount) (hw : (declared data).widthIndex data i ≠ 0) (hk : k < 4) :
    Matters data ((declared data).widthOffset + 4 * (declared data).widthIndex data i + k)
  | height {i k : Nat} (hi : i < (declared data).charCount) (hw : (declared data).widthIndex data i ≠ 0) (hk : k < 4) :
    Matters data ((declared data).heightOffset + 4 * (declared data).heightIndex data i + k)
  | depth {i k : Nat} (hi : i < (declared data).charCount) (hw : (declared data).widthIndex data i ≠ 0) (hk : k < 4) :
    Matters data ((declared data).depthOffset + 4 * (declared data).depthIndex data i + k)

theorem wordAt_congr {o : Nat} (h : ∀ k < 4, data'[o + k]? = data[o + k]?) : wordAt data' o = wordAt data o := by
  rw [wordAt, wordAt, numberAt_congr h]

theorem numberAt_one_congr {o : Nat} (h : data'[o]? = data[o]?) : numberAt data' o 1 = numberAt data o 1 := by
  refine numberAt_congr fun k hk => ?_
  rwa [Nat.lt_one_iff.1 hk]

theorem declared_congr (h : ∀ o, Matters data o → data'[o]? = data[o]?) :
    (declared data').header = (declared data).header ∧ (declared data').first = (declared data).first ∧
      (declared data').last = (declared data).last ∧ (declared data').widths = (declared data).widths ∧
      (declared data').heights = (declared data).heights := by
  have hsize (o : Nat) (hlow : 2 ≤ o) (hhigh : o + 2 ≤ 12) : numberAt data' o 2 = numberAt data o 2 :=
    numberAt_congr fun k hk => h (o + k) (.sizes (by omega) (by omega))
  simp only [declared]
  exact ⟨hsize 2 (by decide) (by decide), hsize 4 (by decide) (by decide), hsize 6 (by decide) (by decide),
    hsize 8 (by decide) (by decide), hsize 10 (by decide) (by decide)⟩

/-- The dimensions of a character come from its indices and from the words to which these point. -/
theorem charAt_congr (h : ∀ o, Matters data o → data'[o]? = data[o]?) {i : Nat} (hi : i < (declared data).charCount) :
    (declared data).charAt data' i = (declared data).charAt data i := by
  have hwidth : (declared data).widthIndex data' i = (declared data).widthIndex data i := by
    rw [Sizes.widthIndex, Sizes.widthIndex, numberAt_one_congr (h _ (.widthIndex hi))]
  rw [Sizes.charAt, Sizes.charAt, hwidth]
  split
  · rfl
  rename_i hw
  have hothers := numberAt_one_congr (h _ (.otherIndices hi hw))
  rw [Sizes.heightIndex, Sizes.depthIndex, hothers, ← Sizes.heightIndex, ← Sizes.depthIndex,
    wordAt_congr fun k hk => h _ (.width hi hw hk), wordAt_congr fun k hk => h _ (.height hi hw hk),
    wordAt_congr fun k hk => h _ (.depth hi hw hk)]

/-- **The metrics come from these bytes only.** -/
theorem held_congr (h : ∀ o, Matters data o → data'[o]? = data[o]?) (name : String) :
    held name data' = held name data := by
  obtain ⟨hheader, hfirst, hlast, hwidths, hheights⟩ := declared_congr h
  have hcount : (declared data').charCount = (declared data).charCount := by
    rw [Sizes.charCount, Sizes.charCount, hfirst, hlast]
  have hchar : ∀ i ∈ List.range (declared data).charCount,
      (declared data').charAt data' i = (declared data).charAt data i := by
    intro i hi
    rw [Sizes.charAt_of_sameLayout hheader hcount hwidths hheights, charAt_congr h (List.mem_range.1 hi)]
  have hword (o : Nat) (hlow : 24 ≤ o) (hhigh : o + 4 ≤ 32) : numberAt data' o 4 = numberAt data o 4 :=
    numberAt_congr fun k hk => h (o + k) (.header (by omega) (by omega))
  rw [held, held, wordAt, wordAt, hword 24 (by decide) (by decide), hword 28 (by decide) (by decide), hfirst, hcount,
    List.map_congr_left hchar]

/-- **Every word is the one at its place, and nothing else in the file counts.** -/
theorem parse_reads {m : Metrics} (h : parse name data = .ok m) :
    m.name = name ∧ m.checksum.toNat = numberAt data 24 4 ∧ m.designSize = wordAt data 28 ∧
      (∀ code : UInt32, (m.char? code).isSome = true ↔
        (declared data).first ≤ code.toNat ∧ code.toNat ≤ (declared data).last ∧
          (declared data).widthIndex data (code.toNat - (declared data).first) ≠ 0) ∧
      (∀ (code : UInt32) (c : CharMetrics), m.char? code = some c →
        c.width = wordAt data ((declared data).widthOffset +
          4 * (declared data).widthIndex data (code.toNat - (declared data).first)) ∧
        c.height = wordAt data ((declared data).heightOffset +
          4 * (declared data).heightIndex data (code.toNat - (declared data).first)) ∧
        c.depth = wordAt data ((declared data).depthOffset +
          4 * (declared data).depthIndex data (code.toNat - (declared data).first))) ∧
      m.charCount = {code : UInt32 | (m.char? code).isSome = true}.ncard ∧
      ∀ (data' : ByteArray) (m' : Metrics), parse name data' = .ok m' →
        (∀ o, Matters data o → data'[o]? = data[o]?) → m' = m := by
  have hfile := isMetricsFile_of_parse h
  obtain rfl : held name data = m := Except.ok.inj ((parse_eq_ok hfile name).symm.trans h)
  have hchecksum : (UInt32.ofNat (numberAt data 24 4)).toNat = numberAt data 24 4 :=
    UInt32.toNat_ofNat_of_lt' (numberAt_lt data 24 4)
  refine ⟨rfl, hchecksum, rfl, fun code => ?_, fun code c hc => ?_, charCount_held hfile.sizes name, ?_⟩
  · rw [char?_held]
    unfold Sizes.charAt
    split
    · rename_i hrange
      split <;> rename_i hw <;> simp [hrange, hw]
    · rename_i hrange
      simp only [Option.isSome_none, Bool.false_eq_true, false_iff]
      exact fun hcode => hrange ⟨hcode.1, hcode.2.1⟩
  · rw [char?_held] at hc
    unfold Sizes.charAt at hc
    split at hc
    · split at hc
      · cases hc
      · obtain rfl := Option.some.inj hc
        exact ⟨rfl, rfl, rfl⟩
    · cases hc
  · intro data' m' h' hagree
    have hheld := parse_eq_ok (isMetricsFile_of_parse h') name
    rw [held_congr hagree name] at hheld
    exact Except.ok.inj (h'.symm.trans hheld)

/-- A file for two characters, of which the font lacks the second. -/
def oneOfTwo : ByteArray := ⟨#[
  -- 16 words: a header of two, the characters 65 and 66, and three tables with two dimensions each
  0, 16, 0, 2, 0, 65, 0, 66, 0, 2, 0, 2, 0, 2, 0, 0, 0, 0, 0, 0, 0, 0, 0, 0,
  0x4b, 0xf1, 0x60, 0x79, 0, 0xa0, 0, 0,
  1, 0x11, 0, 0, 0, 0, 0, 0,
  0, 0, 0, 0, 0, 8, 0, 0,
  0, 0, 0, 0, 0, 7, 0, 0,
  0, 0, 0, 0, 0xff, 0xfe, 0, 0]⟩

/-- What the file says of the one character that the font has. -/
def oneOfTwoMetrics : Metrics where
  name := "one"
  checksum := 0x4bf16079
  designSize := 0xa00000
  firstChar := 65
  chars := #[some { width := 0x80000, height := 0x70000, depth := -0x20000 }, none]

theorem parse_reads_oneOfTwo : parse "one" oneOfTwo = .ok oneOfTwoMetrics ∧
    (oneOfTwoMetrics.char? 65).map (·.depth) = some (wordAt oneOfTwo 60) ∧
    {code : UInt32 | (oneOfTwoMetrics.char? code).isSome = true}.ncard = 1 := by
  have hparse : parse "one" oneOfTwo = .ok oneOfTwoMetrics := by decide +kernel
  obtain ⟨-, -, -, -, hdimensions, hcount, -⟩ := parse_reads hparse
  have hdepth : oneOfTwoMetrics.char? 65 = some ⟨0x80000, 0x70000, -0x20000⟩ := by decide
  have hword := (hdimensions 65 _ hdepth).2.2
  refine ⟨hparse, ?_, hcount.symm⟩
  rw [hdepth, Option.map_some, hword]
  exact congrArg (fun o => some (wordAt oneOfTwo o)) (by decide +kernel)

end Dvi.Metrics
