import Dvi.Proofs.Font.PositionalLines

/-!
# Marked lines

The fields of a marked line stand in any order, and a file or an encoding may be written in several ways. However
this is done, the same record is read.

* `MapLine.Kind`, `MapLine.Kind.Allows`: what fields are for, and which texts they can have; `MapLine.Kind.Writes`:
  how a field is written; `MapLine.Marked`, `MapLine.Marked.Writes`: so for a line;
* `MapLine.ReadAs`: what characters are read as, wherever a field ends behind them;
* **`MapLine.exists_fields_of_writes`**: a field in any spelling is read, and gives its text to the record;
* **`MapLine.Marked.parse_of_writes`**: the record of a line.
-/

namespace Dvi.MapLine

/-! ## What is written -/

/-- A name that can stand in a marked line. -/
structure IsName (s : String) : Prop extends IsWord s where
  bracket : '[' ∉ s.toList

/-- There are only digits. -/
def IsNumber (s : String) : Prop := ∀ c ∈ s.toList, c.isDigit = true

/-- The name has the suffix of encodings, in capitals or small letters. -/
def IsEncodingName (s : String) : Prop := ".enc".toList <:+ (Text.lower s).toList

instance (s : String) : Decidable (IsName s) :=
  decidable_of_iff (IsWord s ∧ '[' ∉ s.toList) ⟨fun h => ⟨h.1, h.2⟩, fun h => ⟨h.toIsWord, h.bracket⟩⟩

instance (s : String) : Decidable (IsNumber s) := decidable_of_iff _ List.all_eq_true

instance (s : String) : Decidable (IsEncodingName s) := decidable_of_iff _ List.isSuffixOf_iff_suffix

/-- What a field behind the name of a font is for. -/
inductive Kind where
  | fontName
  | flags
  | code
  | encoding
  | file
  deriving DecidableEq, Repr

/-- What stands before a file or an encoding. -/
inductive Mark where
  | bracket
  | once
  | twice
  deriving DecidableEq, Repr

/-- The sign behind the first `<`. -/
def Mark.more : Mark → List Char
  | .bracket => ['[']
  | .once => []
  | .twice => ['<']

/-- The characters of a mark. -/
def Mark.chars (m : Mark) : List Char := '<' :: m.more

/-- Blanks that separate fields. -/
def IsGap (cs : List Char) : Prop := ∀ c ∈ cs, Text.isSeparator c = true

instance (cs : List Char) : Decidable (IsGap cs) := decidable_of_iff _ List.all_eq_true

namespace Kind

/-- The kinds of fields behind the name. -/
def all : List Kind := [.fontName, .flags, .code, .encoding, .file]

theorem mem_all (k : Kind) : k ∈ all := by cases k <;> decide

/-- The texts that a field can have. -/
def Allows : Kind → String → Prop
  | .fontName, s => IsName s ∧ ¬ IsNumber s
  | .flags, s => s ≠ "" ∧ IsNumber s
  | .code, s => Text.trim s = s ∧ '"' ∉ s.toList
  | .encoding, s => IsName s ∧ s ≠ "default" ∧ s ≠ "none"
  | .file, s => IsName s ∧ ¬ IsEncodingName s

instance (k : Kind) (s : String) : Decidable (k.Allows s) :=
  match k with
  | .fontName | .flags | .code | .encoding | .file => inferInstanceAs (Decidable (_ ∧ _))

/-- The characters may stand for the text of a field. Names and numbers stand alone and code in quotes. Before an
encoding or a file is a mark, from which blanks may separate it; an encoding can do without the bracket if its suffix
tells. -/
inductive Writes : Kind → String → List Char → Prop
  | fontName {s : String} : Writes .fontName s s.toList
  | flags {s : String} : Writes .flags s s.toList
  | code {s : String} : Writes .code s ('"' :: s.toList ++ ['"'])
  | encoding {s : String} {m : Mark} {gap : List Char} (hm : m = .bracket ∨ m = .once ∧ IsEncodingName s)
    (hgap : IsGap gap) : Writes .encoding s (m.chars ++ gap ++ s.toList)
  | file {s : String} {m : Mark} {gap : List Char} (hm : m ≠ .bracket) (hgap : IsGap gap) :
    Writes .file s (m.chars ++ gap ++ s.toList)

/-- Fields one after the other, with blanks before each. -/
inductive WritesAll : List (Kind × String) → List Char → Prop
  | nil : WritesAll [] []
  | cons {k : Kind} {s : String} {items : List (Kind × String)} {gap cs rest : List Char} (hne : gap ≠ [])
    (hgap : IsGap gap) (hk : k.Writes s cs) (h : WritesAll items rest) :
    WritesAll ((k, s) :: items) (gap ++ cs ++ rest)

end Kind

/-- What a marked line says of a font. -/
structure Marked where
  name : String
  fontName : Option String := none
  flags : Option String := none
  code : Option String := none
  encoding : Option String := none
  file : Option String := none
  deriving DecidableEq, Repr

namespace Marked

/-- The text that a line gives for a kind of field. -/
def given (l : Marked) : Kind → Option String
  | .fontName => l.fontName
  | .flags => l.flags
  | .code => l.code
  | .encoding => l.encoding
  | .file => l.file

/-- The fields behind the name. -/
def items (l : Marked) : List (Kind × String) := Kind.all.filterMap fun k => (l.given k).map (k, ·)

/-- The text is a line that says this, with its fields in any order. -/
def Writes (l : Marked) (text : String) : Prop :=
  ∃ items cs, items.Perm l.items ∧ Kind.WritesAll items cs ∧ text.toList = l.name.toList ++ cs

/-- All fields can be written. A number does not make a line a marked one, so something else has to. -/
structure IsValid (l : Marked) : Prop where
  name : IsName l.name
  first : ∀ c, l.name.toList.head? = some c → c ∉ ['%', '#', '*', ';']
  given : ∀ k, ∀ s ∈ l.given k, k.Allows s
  flags : l.flags ≠ none → l.code ≠ none ∨ l.encoding ≠ none ∨ l.file ≠ none

/-- The options that the line sets. -/
def option? (l : Marked) (flag : String) : Option String :=
  if flag = flagsOption then l.flags else if flag = codeOption then l.code else none

end Marked

/-! ## Reading characters -/

/-- A field ends here. -/
def Stops (rest : List Char) : Prop := ∀ c, rest.head? = some c → Text.isSeparator c = true

/-- The characters are read as these fields, wherever a field ends behind them. -/
def ReadAs (cs : List Char) (fs : List Field) : Prop :=
  ∀ rest, Stops rest → fieldsFrom .between (cs ++ rest) = (fieldsFrom .between rest).map (fs ++ ·)

theorem fieldsFrom_gap {gap : List Char} (hgap : IsGap gap) (rest : List Char) :
    fieldsFrom .between (gap ++ rest) = fieldsFrom .between rest := by
  induction gap with
  | nil => rfl
  | cons c gap ih =>
    have hc : Text.isSeparator c = true := hgap c (.head gap)
    have hquote : c ≠ '"' := by
      rintro rfl
      cases hc
    rw [List.cons_append, fieldsFrom, if_neg hquote, if_pos hc, ih fun c h => hgap c (.tail _ h)]

theorem fieldsFrom_stop {rest : List Char} (h : Stops rest) (read : List Char) :
    fieldsFrom (.word read) rest =
      (fieldsFrom .between rest).map (⟨String.ofList read.reverse, false⟩ :: ·) := by
  cases rest with
  | nil => rfl
  | cons c rest =>
    have hc : Text.isSeparator c = true := h c rfl
    have hquote : c ≠ '"' := by
      rintro rfl
      cases hc
    rw [fieldsFrom, if_neg hquote, if_pos hc, fieldsFrom, if_neg hquote, if_pos hc]

theorem fieldsFrom_quote {cs : List Char} (hcs : '"' ∉ cs) (read rest : List Char) :
    fieldsFrom (.quote read) (cs ++ '"' :: rest) =
      (fieldsFrom .between rest).map (⟨String.ofList (cs.reverse ++ read).reverse, true⟩ :: ·) := by
  induction cs generalizing read with
  | nil => rfl
  | cons c cs ih =>
    have hc : c ≠ '"' := fun h => hcs (h ▸ .head cs)
    rw [List.cons_append, fieldsFrom, if_neg hc, ih fun h => hcs (.tail c h), List.reverse_cons, List.append_assoc]
    rfl

theorem readAs_word {s : String} (hs : IsWord s) : ReadAs s.toList [⟨s, false⟩] := by
  intro rest hrest
  rw [fieldsFrom_of_isWord hs, fieldsFrom_stop hrest, List.reverse_reverse, String.ofList_toList]
  rfl

theorem readAs_quoted {s : String} (hs : '"' ∉ s.toList) : ReadAs ('"' :: s.toList ++ ['"']) [⟨s, true⟩] := by
  intro rest _
  rw [List.append_assoc, List.cons_append, List.singleton_append, fieldsFrom, if_pos rfl, fieldsFrom_quote hs,
    List.append_nil, List.reverse_reverse, String.ofList_toList]
  rfl

theorem readAs_mark (m : Mark) {cs : List Char} (hcs : ∀ c ∈ cs, isPlain c = true) :
    ReadAs (m.chars ++ cs) [⟨String.ofList (m.chars ++ cs), false⟩] := by
  intro rest hrest
  have hmark : fieldsFrom .between (m.chars ++ (cs ++ rest)) = fieldsFrom (.word m.chars.reverse) (cs ++ rest) := by
    cases m <;> rfl
  rw [List.append_assoc, hmark, fieldsFrom_word hcs, fieldsFrom_stop hrest, List.reverse_append, List.reverse_reverse,
    List.reverse_reverse]
  rfl

theorem ReadAs.append {cs cs' gap : List Char} {fs fs' : List Field} (h : ReadAs cs fs) (hne : gap ≠ [])
    (hgap : IsGap gap) (h' : ReadAs cs' fs') : ReadAs (cs ++ gap ++ cs') (fs ++ fs') := by
  intro rest hrest
  have hstops : Stops (gap ++ (cs' ++ rest)) := by
    obtain ⟨c, gap, rfl⟩ := List.exists_cons_of_ne_nil hne
    rintro c' ⟨⟩
    exact hgap c (.head gap)
  rw [List.append_assoc, List.append_assoc, h _ hstops, fieldsFrom_gap hgap, h' _ hrest, Option.map_map]
  congr 1
  funext gs
  exact (List.append_assoc fs fs' gs).symm

/-! ## Records -/

/-- What a record holds of what the fields of a line say. -/
def held (r : MapRecord) : Kind → Option String
  | .fontName => r.fontName
  | .flags => r.options.find? flagsOption
  | .code => r.options.find? codeOption
  | .encoding => r.encoding
  | .file => r.file

/-- The record with the text of a field. -/
def give (r : MapRecord) : Kind → String → MapRecord
  | .fontName, s => { r with fontName := some s }
  | .flags, s => r.setOption flagsOption s
  | .code, s => r.setOption codeOption s
  | .encoding, s => { r with encoding := some s }
  | .file, s => { r with file := some s }

theorem held_give (r : MapRecord) (k k' : Kind) (s : String) :
    held (give r k s) k' = if k' = k then some s else held r k' := by
  have hne : flagsOption ≠ codeOption := by decide
  cases k <;> cases k' <;> simp [give, held, MapRecord.setOption, Table.find?_insert, hne, hne.symm]

theorem texName_give (r : MapRecord) (k : Kind) (s : String) : (give r k s).texName = r.texName := by
  cases k <;> rfl

theorem find?_give (r : MapRecord) (k : Kind) (s : String) {option : String} (hflags : option ≠ flagsOption)
    (hcode : option ≠ codeOption) : (give r k s).options.find? option = r.options.find? option := by
  cases k with
  | flags => exact (Table.find?_insert _ _ _ _).trans (if_neg hflags)
  | code => exact (Table.find?_insert _ _ _ _).trans (if_neg hcode)
  | fontName | encoding | file => rfl

/-- The fields give a text to the record, whatever comes behind them. -/
def Gives (fs : List Field) (k : Kind) (s : String) : Prop :=
  ∀ r : MapRecord, held r k = none → ∀ more, marked r (fs ++ more) = marked (give r k s) more

theorem marked_word {s : String} (hs : IsWord s) (r : MapRecord) (more : List Field) :
    marked r (⟨s, false⟩ :: more) = marked (addWord r s) more := by
  obtain ⟨c, cs, hcs⟩ := List.exists_cons_of_ne_nil hs.nonempty
  have hc : c ≠ '<' := (isPlain_bounds (hs.plain c (by simp [hcs]))).2.2.2
  rw [marked]
  simp only [hcs, Bool.false_eq_true, if_false]
  split
  · rename_i h
    exact absurd (List.cons.inj h).1 hc
  · rfl

theorem isWord_of_isNumber {s : String} (hne : s ≠ "") (hs : IsNumber s) : IsWord s where
  nonempty h := hne (String.toList_eq_nil_iff.1 h)
  plain c hc := by
    have hdigit := hs c hc
    simp only [Char.isDigit, Bool.and_eq_true, decide_eq_true_eq] at hdigit
    have hlow : 48 ≤ c.toNat := hdigit.1
    have hhigh : c.toNat ≤ 57 := hdigit.2
    have hne {d : Char} (hd : d.toNat < 48 ∨ 57 < d.toNat) : c ≠ d := by
      rintro rfl
      omega
    simp only [isPlain, Bool.and_eq_true, decide_eq_true_eq, bne_iff_ne]
    exact ⟨⟨⟨by omega, by omega⟩, hne (.inl (by decide))⟩, hne (.inr (by decide))⟩

theorem gives_fontName {s : String} (hs : IsName s) (hnumber : ¬ IsNumber s) : Gives [⟨s, false⟩] .fontName s := by
  intro r hr more
  have hr : r.fontName = none := hr
  have hall : s.toList.all Char.isDigit = false := by
    rw [Bool.eq_false_iff, Ne, List.all_eq_true]
    exact hnumber
  rw [List.singleton_append, marked_word hs.toIsWord, addWord, hall, hr]
  rfl

theorem gives_flags {s : String} (hne : s ≠ "") (hs : IsNumber s) : Gives [⟨s, false⟩] .flags s := by
  intro r _ more
  rw [List.singleton_append, marked_word (isWord_of_isNumber hne hs), addWord, List.all_eq_true.2 hs]
  rfl

theorem gives_code {s : String} (hs : Text.trim s = s) : Gives [⟨s, true⟩] .code s := by
  intro r hr more
  have hr : r.options.find? codeOption = none := hr
  rw [List.singleton_append, marked]
  simp only [if_true, addCode, hr, hs, Option.getD_none, beq_self_eq_true, String.empty_append]
  rfl

theorem splitMark_more (m : Mark) {cs : List Char} (hbracket : '[' ∉ cs) (hmark : '<' ∉ cs) :
    splitMark (m.more ++ cs) = (m == .bracket, cs) := by
  cases m with
  | bracket | twice => rfl
  | once =>
    change splitMark cs = _
    unfold splitMark
    split
    · exact absurd (.head _) hbracket
    · exact absurd (.head _) hmark
    · rfl

theorem marked_mark (m : Mark) {s : String} (hs : IsName s) (r : MapRecord) (more : List Field) :
    marked r (⟨String.ofList (m.chars ++ s.toList), false⟩ :: more) = marked (addFile r (m == .bracket) s) more ∧
      marked r (⟨String.ofList m.chars, false⟩ :: ⟨s, false⟩ :: more) = marked (addFile r (m == .bracket) s) more := by
  have hmark : '<' ∉ s.toList := fun h => (isPlain_bounds (hs.plain _ h)).2.2.2 rfl
  constructor
  · have hsplit := splitMark_more m hs.bracket hmark
    obtain ⟨c, cs, hcs⟩ := List.exists_cons_of_ne_nil hs.nonempty
    have hread : String.ofList (c :: cs) = s := by rw [← hcs, String.ofList_toList]
    rw [marked]
    simp only [Bool.false_eq_true, if_false, String.toList_ofList, Mark.chars, List.cons_append, hsplit]
    simp only [hcs, hread]
  · have hsplit : splitMark (m.more ++ []) = (m == .bracket, []) := splitMark_more m List.not_mem_nil List.not_mem_nil
    rw [List.append_nil] at hsplit
    rw [marked]
    simp only [Bool.false_eq_true, if_false, String.toList_ofList, Mark.chars, hsplit]

/-- A mark and a name are read, and the name is that of an encoding or of a file. -/
theorem exists_fields_mark (m : Mark) {s : String} (hs : IsName s) {gap : List Char} (hgap : IsGap gap) :
    ∃ fs, ReadAs (m.chars ++ gap ++ s.toList) fs ∧
      ∀ r more, marked r (fs ++ more) = marked (addFile r (m == .bracket) s) more := by
  by_cases hne : gap = []
  · subst hne
    rw [List.append_nil]
    exact ⟨_, readAs_mark m hs.plain, fun r more => (marked_mark m hs r more).1⟩
  · have hmark : ReadAs m.chars [⟨String.ofList m.chars, false⟩] := by
      have h := @readAs_mark m [] fun c hc => absurd hc List.not_mem_nil
      rwa [List.append_nil] at h
    exact ⟨_, hmark.append hne hgap (readAs_word hs.toIsWord), fun r more => (marked_mark m hs r more).2⟩

/-- Either the mark or the suffix makes a name that of an encoding. -/
theorem addFile_eq (m : Mark) (s : String) (r : MapRecord) : addFile r (m == .bracket) s =
    if m = .bracket ∨ IsEncodingName s then r.setEncoding s else { r with file := some s } := by
  refine ite_congr (propext ?_) (fun _ => rfl) fun _ => rfl
  rw [Bool.or_eq_true, beq_iff_eq, List.isSuffixOf_iff_suffix, IsEncodingName]

theorem addFile_encoding {m : Mark} {s : String} (hm : m = .bracket ∨ m = .once ∧ IsEncodingName s) (hs : IsName s)
    (hdefault : s ≠ "default") (hnone : s ≠ "none") (r : MapRecord) :
    addFile r (m == .bracket) s = give r .encoding s := by
  have hempty : s ≠ "" := fun h => hs.nonempty (by rw [h]; rfl)
  rw [addFile_eq, if_pos (hm.imp_right And.right), setEncoding_of_ne hempty hdefault hnone]
  rfl

theorem addFile_file {m : Mark} {s : String} (hm : m ≠ .bracket) (hs : ¬ IsEncodingName s) (r : MapRecord) :
    addFile r (m == .bracket) s = give r .file s := by
  rw [addFile_eq, if_neg (not_or.2 ⟨hm, hs⟩)]
  rfl

/-- The field has no sign by which a line is known to be marked. -/
def Kind.isBare : Kind → Bool
  | .fontName | .flags => true
  | .code | .encoding | .file => false

/-- **A field in any spelling is read, and gives its text to the record.** It is a single field without a sign, or there
is a sign in it. -/
theorem exists_fields_of_writes {k : Kind} {s : String} {cs : List Char} (h : k.Writes s cs) (hs : k.Allows s) :
    ∃ fs, ReadAs cs fs ∧ Gives fs k s ∧ if k.isBare then fs.length = 1 else '"' ∈ cs ∨ '<' ∈ cs := by
  cases h with
  | fontName => exact ⟨_, readAs_word hs.1.toIsWord, gives_fontName hs.1 hs.2, rfl⟩
  | flags => exact ⟨_, readAs_word (isWord_of_isNumber hs.1 hs.2), gives_flags hs.1 hs.2, rfl⟩
  | code => exact ⟨_, readAs_quoted hs.2, gives_code hs.1, .inl (.head _)⟩
  | encoding hm hgap =>
    obtain ⟨hname, hdefault, hnone⟩ := hs
    obtain ⟨fs, hread, hmarked⟩ := exists_fields_mark _ hname hgap
    refine ⟨fs, hread, fun r _ more => ?_, .inr (.head _)⟩
    rw [hmarked, addFile_encoding hm hname hdefault hnone]
  | file hm hgap =>
    obtain ⟨hname, hsuffix⟩ := hs
    obtain ⟨fs, hread, hmarked⟩ := exists_fields_mark _ hname hgap
    refine ⟨fs, hread, fun r _ more => ?_, .inr (.head _)⟩
    rw [hmarked, addFile_file hm hsuffix]

/-! ## All fields -/

/-- The record with the texts of some fields. -/
def giveAll (r : MapRecord) (items : List (Kind × String)) : MapRecord :=
  items.foldl (fun r item => give r item.1 item.2) r

theorem held_giveAll_of_not_mem {items : List (Kind × String)} {k : Kind} (hk : k ∉ items.map Prod.fst)
    (r : MapRecord) : held (giveAll r items) k = held r k := by
  induction items generalizing r with
  | nil => rfl
  | cons item items ih =>
    rw [List.map_cons, List.mem_cons, not_or] at hk
    rw [giveAll, List.foldl_cons, ← giveAll, ih hk.2, held_give, if_neg hk.1]

theorem held_giveAll_of_mem {items : List (Kind × String)} (hnodup : (items.map Prod.fst).Nodup) {k : Kind} {s : String}
    (hk : (k, s) ∈ items) (r : MapRecord) : held (giveAll r items) k = some s := by
  induction items generalizing r with
  | nil => cases hk
  | cons item items ih =>
    rw [List.map_cons, List.nodup_cons] at hnodup
    rw [giveAll, List.foldl_cons, ← giveAll]
    cases hk with
    | head => rw [held_giveAll_of_not_mem hnodup.1, held_give, if_pos rfl]
    | tail _ hk => exact ih hnodup.2 hk _

theorem texName_giveAll (r : MapRecord) (items : List (Kind × String)) : (giveAll r items).texName = r.texName := by
  induction items generalizing r with
  | nil => rfl
  | cons item items ih => exact (ih _).trans (texName_give r item.1 item.2)

theorem find?_giveAll (r : MapRecord) (items : List (Kind × String)) {option : String} (hflags : option ≠ flagsOption)
    (hcode : option ≠ codeOption) : (giveAll r items).options.find? option = r.options.find? option := by
  induction items generalizing r with
  | nil => rfl
  | cons item items ih => exact (ih _).trans (find?_give r item.1 item.2 hflags hcode)

/-- **Fields are read one after the other, and give their texts to the record**, if they are for different things. -/
theorem exists_fields_of_writesAll {items : List (Kind × String)} {cs : List Char} (h : Kind.WritesAll items cs)
    (hs : ∀ item ∈ items, item.1.Allows item.2) (hnodup : (items.map Prod.fst).Nodup) :
    ∃ fs, (∀ cs' fs', ReadAs cs' fs' → ReadAs (cs' ++ cs) (fs' ++ fs)) ∧
      (∀ r : MapRecord, (∀ k ∈ items.map Prod.fst, held r k = none) → marked r fs = .ok (giveAll r items)) ∧
      if items.all (·.1.isBare) then fs.length = items.length else '"' ∈ cs ∨ '<' ∈ cs := by
  induction h with
  | nil => exact ⟨[], fun cs' fs' h => by rwa [List.append_nil, List.append_nil], fun r _ => rfl, rfl⟩
  | @cons k s items gap cs rest hne hgap hk _ ih =>
    rw [List.map_cons, List.nodup_cons] at hnodup
    obtain ⟨fs, hread, hgives, hsign⟩ := exists_fields_of_writes hk (hs _ (.head items))
    obtain ⟨fs', hread', hmarked, hsign'⟩ := ih (fun item h => hs item (.tail _ h)) hnodup.2
    refine ⟨fs ++ fs', fun cs' gs h => ?_, fun r hr => ?_, ?_⟩
    · rw [← List.append_assoc, ← List.append_assoc, ← List.append_assoc]
      exact hread' _ _ (h.append hne hgap hread)
    · rw [hgives r (hr k (.head _)), hmarked]
      · rfl
      · intro k' hk'
        have hkk : k' ≠ k := fun h => hnodup.1 (h ▸ hk')
        rw [held_give, if_neg hkk]
        exact hr k' (.tail _ hk')
    · simp only [List.all_cons, List.length_append, List.length_cons, List.mem_append]
      cases hbare : k.isBare with
      | false =>
        rw [hbare] at hsign
        simp only [Bool.false_and, Bool.false_eq_true, if_false] at hsign ⊢
        exact hsign.imp (fun h => .inl (.inr h)) fun h => .inl (.inr h)
      | true =>
        rw [hbare, if_pos rfl] at hsign
        rw [Bool.true_and]
        split <;> rename_i hall
        · rw [if_pos hall] at hsign'
          omega
        · rw [if_neg hall] at hsign'
          exact hsign'.imp .inr .inr

/-- The characters end with one that is not blank. -/
def EndsFull (cs : List Char) : Prop := ∃ c, cs.getLast? = some c ∧ Text.isBlank c = false

theorem EndsFull.append {cs : List Char} (h : EndsFull cs) (cs' : List Char) : EndsFull (cs' ++ cs) := by
  obtain ⟨c, hc, hblank⟩ := h
  exact ⟨c, by rw [List.getLast?_append, hc, Option.some_or], hblank⟩

theorem IsWord.endsFull {s : String} (hs : IsWord s) : EndsFull s.toList := by
  refine ⟨_, List.getLast?_eq_some_getLast hs.nonempty, ?_⟩
  exact isBlank_of_isPlain (hs.plain _ (List.getLast_mem hs.nonempty))

theorem Kind.Writes.endsFull {k : Kind} {s : String} {cs : List Char} (h : k.Writes s cs) (hs : k.Allows s) :
    EndsFull cs := by
  cases h with
  | fontName => exact hs.1.toIsWord.endsFull
  | flags => exact (isWord_of_isNumber hs.1 hs.2).endsFull
  | code => exact EndsFull.append ⟨'"', rfl, by decide⟩ _
  | encoding hm hgap => exact hs.1.toIsWord.endsFull.append _
  | file hm hgap => exact hs.1.toIsWord.endsFull.append _

theorem Kind.WritesAll.endsFull {items : List (Kind × String)} {cs : List Char} (h : Kind.WritesAll items cs)
    (hs : ∀ item ∈ items, item.1.Allows item.2) {cs' : List Char} (hcs' : EndsFull cs') : EndsFull (cs' ++ cs) := by
  induction h generalizing cs' with
  | nil => rwa [List.append_nil]
  | @cons k s items gap cs rest hne hgap hk _ ih =>
    rw [← List.append_assoc]
    exact ih (fun item h => hs item (.tail _ h)) ((hk.endsFull (hs _ (.head items))).append gap |>.append cs')

/-- A line is read by its fields. -/
theorem parse_of_readAs {text name : String} {cs : List Char} {fs : List Field} (hname : IsWord name)
    (hfirst : ∀ c, name.toList.head? = some c → c ∉ ['%', '#', '*', ';']) (htext : text.toList = name.toList ++ cs)
    (hend : EndsFull (name.toList ++ cs)) (hread : ReadAs (name.toList ++ cs) (⟨name, false⟩ :: fs)) :
    parse text = some (if isMarked text.toList (⟨name, false⟩ :: fs) then marked { texName := name } fs
      else positional name fs) := by
  obtain ⟨c, name', hcons⟩ := List.exists_cons_of_ne_nil hname.nonempty
  have hhead : text.toList.head? = some c := by
    rw [htext, hcons]
    rfl
  have hblanks : Text.dropBlanks text.toList = text.toList := by
    refine Text.dropBlanks_eq (fun c' hc' => ?_) fun c' hc' => ?_
    · obtain rfl := Option.some.inj (hhead.symm.trans hc')
      exact isBlank_of_isPlain (hname.plain c (by rw [hcons]; exact .head name'))
    · obtain ⟨d, hd, hblank⟩ := hend
      rw [htext, hd] at hc'
      rwa [← Option.some.inj hc']
  have hcomment : isComment text.toList = false := by
    refine isComment_eq_false (fun h => by rw [h] at hhead; cases hhead) fun c' hc' => ?_
    obtain rfl := Option.some.inj (hhead.symm.trans hc')
    exact hfirst c (by rw [hcons]; rfl)
  have hfields : fields text.toList = some (⟨name, false⟩ :: fs) := by
    have h := hread [] nofun
    rwa [List.append_nil, ← htext, ← fields_eq, fieldsFrom, Option.map_some, List.append_nil] at h
  rw [parse]
  simp only [hblanks, hcomment, hfields, Bool.false_eq_true, if_false]
  split <;> rfl

namespace Marked

variable {l : Marked} {text : String}

theorem mem_items {k : Kind} {s : String} : (k, s) ∈ l.items ↔ l.given k = some s := by
  simp only [items, List.mem_filterMap, Option.map_eq_some_iff, Prod.mk.injEq]
  constructor
  · rintro ⟨k, -, s, hs, rfl, rfl⟩
    exact hs
  · exact fun hs => ⟨k, k.mem_all, s, hs, rfl, rfl⟩

theorem map_fst_items (l : Marked) : l.items.map Prod.fst = Kind.all.filter fun k => (l.given k).isSome := by
  rw [items, List.map_filterMap, ← List.filterMap_eq_filter]
  congr 1
  funext k
  cases hk : l.given k <;> simp [Option.guard, hk]

theorem nodup_items (l : Marked) : (l.items.map Prod.fst).Nodup := by
  rw [map_fst_items]
  exact List.filter_sublist.nodup (by decide)

theorem IsValid.length_items_le (hl : l.IsValid) (hbare : l.items.all (·.1.isBare) = true) : l.items.length ≤ 1 := by
  have hnone (k : Kind) (hk : k.isBare = false) : l.given k = none := by
    rcases hgiven : l.given k with _ | s
    · rfl
    · have hsign := List.all_eq_true.1 hbare (k, s) (mem_items.2 hgiven)
      cases hk.symm.trans hsign
  have hcode : l.code = none := hnone .code rfl
  have hencoding : l.encoding = none := hnone .encoding rfl
  have hfile : l.file = none := hnone .file rfl
  have hflags : l.flags = none := by
    by_cases h : l.flags = none
    · exact h
    · obtain h | h | h := hl.flags h <;> contradiction
  rw [← List.length_map Prod.fst, map_fst_items]
  rcases hfont : l.fontName with _ | s <;>
    simp [Kind.all, Marked.given, hfont, hflags, hcode, hencoding, hfile]

theorem held_of_perm {items : List (Kind × String)} (hperm : items.Perm l.items) (k : Kind) :
    held (giveAll { texName := l.name } items) k = l.given k := by
  have hmem := hperm.map Prod.fst
  rcases hk : l.given k with _ | s
  · rw [held_giveAll_of_not_mem]
    · cases k <;> rfl
    · rw [hmem.mem_iff, map_fst_items, List.mem_filter, hk]
      exact fun h => absurd h.2 nofun
  · exact held_giveAll_of_mem (hmem.nodup_iff.2 l.nodup_items) (hperm.mem_iff.2 (mem_items.2 hk)) _

/-- **What a marked line says is read back**, in whatever order its fields stand and however they are spelled. -/
theorem parse_of_writes (hl : l.IsValid) (htext : l.Writes text) : ∃ r, parse text = some (.ok r) ∧
    r.texName = l.name ∧ r.fontName = l.fontName ∧ r.encoding = l.encoding ∧ r.file = l.file ∧
    ∀ option, r.options.find? option = l.option? option := by
  obtain ⟨items, cs, hperm, hcs, htext⟩ := htext
  have hallows : ∀ item ∈ items, item.1.Allows item.2 := fun item hitem =>
    hl.given item.1 item.2 (mem_items.1 (hperm.mem_iff.1 hitem))
  obtain ⟨fs, hread, hmarked, hsign⟩ :=
    exists_fields_of_writesAll hcs hallows ((hperm.map Prod.fst).nodup_iff.2 l.nodup_items)
  have hparse := parse_of_readAs hl.name.toIsWord hl.first htext (hcs.endsFull hallows hl.name.toIsWord.endsFull)
    (hread _ _ (readAs_word hl.name.toIsWord))
  -- Only a name alone is not marked, and then there is nothing to give.
  have hrest : isMarked text.toList (⟨l.name, false⟩ :: fs) = true ∨ fs = [] := by
    rw [isMarked, Bool.or_eq_true, Bool.or_eq_true, List.contains_iff_mem, List.contains_iff_mem, beq_iff_eq,
      List.length_cons, htext, List.mem_append, List.mem_append]
    split at hsign
    · rename_i hbare
      have hlength := hl.length_items_le (by rwa [← hperm.all_eq])
      rw [← hperm.length_eq, ← hsign] at hlength
      rcases fs with _ | ⟨f, fs⟩
      · exact .inr rfl
      · rw [List.length_cons] at hlength
        exact .inl (.inr (by rw [List.length_cons]; omega))
    · exact .inl (.inl (hsign.imp .inr .inr))
  have hrecord : parse text = some (.ok (giveAll { texName := l.name } items)) := by
    rw [hparse, ← hmarked _ fun k _ => by cases k <;> rfl]
    split
    · rfl
    · rename_i hno
      obtain rfl := hrest.resolve_left hno
      rfl
  have hheld := held_of_perm hperm
  refine ⟨_, hrecord, texName_giveAll _ _, hheld .fontName, hheld .encoding, hheld .file, fun option => ?_⟩
  rw [option?]
  split
  · rename_i h
    rw [h]
    exact hheld .flags
  split
  · rename_i h
    rw [h]
    exact hheld .code
  · rename_i hflags hcode
    exact find?_giveAll _ _ hflags hcode

/-- A font with everything that can be said of it. -/
def times : Marked where
  name := "ptmr8r"
  fontName := some "Times-Roman"
  flags := some "4"
  code := some "TeXBase1Encoding ReEncodeFont"
  encoding := some "8r.enc"
  file := some "utmr8a.pfb"

/-- A line with all fields, in which the code stands in the middle. -/
def timesText : String := "ptmr8r <[ 8r.enc \"TeXBase1Encoding ReEncodeFont\" 4 <<utmr8a.pfb Times-Roman"

theorem isValid_times : times.IsValid where
  name := by decide
  first := by
    rintro c ⟨⟩
    decide
  given k s hs := by cases k <;> cases hs <;> decide
  flags := by decide

theorem writes_times : times.Writes timesText := by
  have hne : [' '] ≠ [] := by decide
  have hgap : IsGap [' '] := by decide
  have hall := Kind.WritesAll.cons hne hgap (@Kind.Writes.encoding "8r.enc" .bracket [' '] (.inl rfl) hgap) <|
    .cons hne hgap (@Kind.Writes.code "TeXBase1Encoding ReEncodeFont") <|
    .cons hne hgap (@Kind.Writes.flags "4") <|
    .cons hne hgap (@Kind.Writes.file "utmr8a.pfb" .twice [] nofun nofun) <|
    .cons hne hgap (@Kind.Writes.fontName "Times-Roman") .nil
  exact ⟨_, _, by decide, hall, by decide⟩

theorem parse_of_writes_times : times.IsValid ∧ times.Writes timesText ∧ ∃ r, parse timesText = some (.ok r) ∧
    r.texName = "ptmr8r" ∧ r.fontName = some "Times-Roman" ∧ r.encoding = some "8r.enc" ∧ r.file = some "utmr8a.pfb" ∧
    r.options.find? "flags" = some "4" ∧ r.options.find? "ps" = some "TeXBase1Encoding ReEncodeFont" := by
  obtain ⟨r, hparse, hname, hfont, hencoding, hfile, hoptions⟩ := parse_of_writes isValid_times writes_times
  exact ⟨isValid_times, writes_times, r, hparse, hname, hfont, hencoding, hfile, hoptions _, hoptions _⟩

end Marked

end Dvi.MapLine
