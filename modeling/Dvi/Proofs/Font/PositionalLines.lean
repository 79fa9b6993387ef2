import Dvi.Font.MapLine
import Dvi.Proofs.Tables

/-!
# Positional lines

A positional line is written as fields with single blanks between them. What was written is read back, unless the line
has two fields: then it is taken for a marked line, and the one option in it for the name of a font.

* `MapLine.IsWord`, `MapLine.Setting`, `MapLine.Positional`: what can be written, `MapLine.Positional.text` how;
* **`MapLine.fields_joined`**: words with blanks between them are read as these words;
* `MapLine.options_settings`, `MapLine.positional_written`: options, and all fields behind the name;
* **`MapLine.parse_written`**: the record of a line.
-/

namespace Dvi

theorem Text.dropBlanks_eq {cs : List Char} (hfirst : ∀ c, cs.head? = some c → isBlank c = false)
    (hlast : ∀ c, cs.getLast? = some c → isBlank c = false) : dropBlanks cs = cs := by
  have hfront {ds : List Char} (h : ∀ c, ds.head? = some c → isBlank c = false) : ds.dropWhile isBlank = ds := by
    cases ds with
    | nil => rfl
    | cons d ds => rw [List.dropWhile_cons, h d rfl, if_neg nofun]
  rw [dropBlanks, hfront hfirst, dropBlanksEnd, hfront, List.reverse_reverse]
  intro c hc
  rw [List.head?_reverse] at hc
  exact hlast c hc

namespace MapLine

/-! ## Words -/

/-- Printable ASCII, but for the blank and the two signs that mark a line. -/
def isPlain (c : Char) : Bool := 0x21 ≤ c.toNat && c.toNat ≤ 0x7E && c != '"' && c != '<'

/-- A text that can stand as a field without quotes. -/
structure IsWord (s : String) : Prop where
  nonempty : s.toList ≠ []
  plain : ∀ c ∈ s.toList, isPlain c = true

instance (s : String) : Decidable (IsWord s) :=
  decidable_of_iff (s.toList ≠ [] ∧ s.toList.all isPlain = true)
    ⟨fun h => ⟨h.1, List.all_eq_true.1 h.2⟩, fun h => ⟨h.nonempty, List.all_eq_true.2 h.plain⟩⟩

/-- Fields without quotes. -/
def unquoted (words : List String) : List Field := words.map fun w => ⟨w, false⟩

/-- The texts with a blank between each two of them. -/
def joined (words : List String) : List Char := (" ".intercalate words).toList

theorem joined_singleton (w : String) : joined [w] = w.toList := by
  simp [joined]

theorem joined_cons_cons (w w' : String) (ws : List String) :
    joined (w :: w' :: ws) = w.toList ++ ' ' :: joined (w' :: ws) := by
  simp [joined, String.toList_intercalate]

theorem isPlain_bounds {c : Char} (h : isPlain c = true) :
    0x21 ≤ c.toNat ∧ c.toNat ≤ 0x7E ∧ c ≠ '"' ∧ c ≠ '<' := by
  simpa [isPlain, and_assoc] using h

theorem isBlank_of_isPlain {c : Char} (h : isPlain c = true) : Text.isBlank c = false := by
  obtain ⟨hlow, hhigh, -, -⟩ := isPlain_bounds h
  simp only [Text.isBlank, Bool.or_eq_false_iff, Bool.and_eq_false_iff, decide_eq_false_iff_not, beq_eq_false_iff_ne]
  omega

theorem isSeparator_of_isPlain {c : Char} (h : isPlain c = true) : Text.isSeparator c = false := by
  refine Bool.eq_false_iff.2 fun hc => ?_
  have hblank := isBlank_of_isPlain h
  rw [Text.isBlank_of_isSeparator hc] at hblank
  cases hblank

theorem fieldsFrom_word {cs : List Char} (hcs : ∀ c ∈ cs, isPlain c = true) (read rest : List Char) :
    fieldsFrom (.word read) (cs ++ rest) = fieldsFrom (.word (cs.reverse ++ read)) rest := by
  induction cs generalizing read with
  | nil => rfl
  | cons c cs ih =>
    have hc : isPlain c = true := hcs c (.head cs)
    rw [List.cons_append, fieldsFrom, if_neg (isPlain_bounds hc).2.2.1, isSeparator_of_isPlain hc, if_neg nofun,
      ih fun c h => hcs c (.tail _ h), List.reverse_cons, List.append_assoc]
    rfl

theorem fieldsFrom_of_isWord {w : String} (hw : IsWord w) (rest : List Char) :
    fieldsFrom .between (w.toList ++ rest) = fieldsFrom (.word w.toList.reverse) rest := by
  rcases hcs : w.toList with _ | ⟨c, cs⟩
  · exact absurd hcs hw.nonempty
  · have hplain := hw.plain
    rw [hcs] at hplain
    have hc : isPlain c = true := hplain c (.head cs)
    rw [List.cons_append, fieldsFrom, if_neg (isPlain_bounds hc).2.2.1, isSeparator_of_isPlain hc, if_neg nofun,
      fieldsFrom_word fun c h => hplain c (.tail _ h), List.reverse_cons]

/-- **Words with blanks between them are read as these words.** -/
theorem fields_joined {ws : List String} (hws : ∀ w ∈ ws, IsWord w) :
    fields (joined ws) = some (unquoted ws) := by
  induction ws with
  | nil => rfl
  | cons w ws ih =>
    have hw : IsWord w := hws w (.head ws)
    have hread : String.ofList w.toList.reverse.reverse = w := by rw [List.reverse_reverse, String.ofList_toList]
    cases ws with
    | nil =>
      rw [joined_singleton, fields_eq, ← List.append_nil w.toList, fieldsFrom_of_isWord hw, fieldsFrom, hread]
      rfl
    | cons w' ws =>
      have hrest := ih fun v hv => hws v (.tail w hv)
      rw [fields_eq] at hrest ⊢
      -- The blank ends the word, and the others are read from behind it.
      rw [joined_cons_cons, fieldsFrom_of_isWord hw, fieldsFrom, if_neg (by decide), if_pos (by decide), hrest, hread]
      rfl

theorem isPlain_or_of_mem_joined {ws : List String} (hws : ∀ w ∈ ws, IsWord w) {c : Char} (hc : c ∈ joined ws) :
    isPlain c = true ∨ c = ' ' := by
  induction ws with
  | nil => cases hc
  | cons w ws ih =>
    have hw : IsWord w := hws w (.head ws)
    cases ws with
    | nil =>
      rw [joined_singleton] at hc
      exact .inl (hw.plain c hc)
    | cons w' ws =>
      rw [joined_cons_cons, List.mem_append, List.mem_cons] at hc
      obtain hc | rfl | hc := hc
      · exact .inl (hw.plain c hc)
      · exact .inr rfl
      · exact ih (fun v hv => hws v (.tail w hv)) hc

theorem head?_joined {w : String} (hw : IsWord w) (ws : List String) :
    (joined (w :: ws)).head? = w.toList.head? := by
  cases ws with
  | nil => rw [joined_singleton]
  | cons w' ws =>
    rw [joined_cons_cons, List.head?_append]
    rcases hcs : w.toList with _ | ⟨c, cs⟩
    · exact absurd hcs hw.nonempty
    · rfl

theorem isPlain_getLast?_joined {ws : List String} (hws : ∀ w ∈ ws, IsWord w) {c : Char}
    (hc : (joined ws).getLast? = some c) : isPlain c = true := by
  induction ws with
  | nil => cases hc
  | cons w ws ih =>
    have hw : IsWord w := hws w (.head ws)
    cases ws with
    | nil =>
      rw [joined_singleton] at hc
      exact hw.plain c (List.mem_of_getLast? hc)
    | cons w' ws =>
      have hrest : joined (w' :: ws) ≠ [] := by
        intro h
        have hhead := head?_joined (hws w' (.tail w (.head ws))) ws
        rw [h] at hhead
        exact (hws w' (.tail w (.head ws))).nonempty (List.head?_eq_none_iff.1 hhead.symm)
      rw [joined_cons_cons, List.getLast?_append, List.getLast?_cons_of_ne_nil hrest] at hc
      refine ih (fun v hv => hws v (.tail w hv)) ?_
      rcases hlast : (joined (w' :: ws)).getLast? with _ | d
      · exact absurd (List.getLast?_eq_none_iff.1 hlast) hrest
      · rw [hlast, Option.some_or] at hc
        exact hc

theorem dropBlanks_joined {w : String} {ws : List String} (hws : ∀ v ∈ w :: ws, IsWord v) :
    Text.dropBlanks (joined (w :: ws)) = joined (w :: ws) := by
  have hw : IsWord w := hws w (.head ws)
  apply Text.dropBlanks_eq
  · intro c hc
    rw [head?_joined hw] at hc
    exact isBlank_of_isPlain (hw.plain c (List.mem_of_head? hc))
  · intro c hc
    exact isBlank_of_isPlain (isPlain_getLast?_joined hws hc)

/-! ## Options -/

/-- An option as it is written: the flag that has no value, or another flag and its value. -/
inductive Setting where
  | bare
  | valued (flag value : String)
  deriving DecidableEq, Repr

namespace Setting

/-- The fields that write an option. -/
def fields : Setting → List String
  | .bare => ["-" ++ bareFlag]
  | .valued flag value => ["-" ++ flag, value]

/-- What is kept of an option. -/
def entry : Setting → String × String
  | .bare => (bareFlag, "")
  | .valued flag value => (flag, value)

/-- An option that can be written and is accepted. -/
inductive IsValid : Setting → Prop
  | bare : IsValid .bare
  | valued {flag value : String} : IsWord flag → flag ≠ bareFlag → IsWord value → checkOption flag value = .ok () →
    IsValid (.valued flag value)

theorem isWord_flag {flag : String} (h : ∀ c ∈ flag.toList, isPlain c = true) : IsWord ("-" ++ flag) where
  nonempty := by simp
  plain c hc := by
    rw [String.toList_append, List.mem_append] at hc
    obtain hc | hc := hc
    · cases hc with
      | head => rfl
      | tail _ hc => cases hc
    · exact h c hc

theorem IsValid.isWord {s : Setting} (hs : s.IsValid) : ∀ w ∈ s.fields, IsWord w := by
  intro w hw
  cases hs with
  | bare =>
    cases List.mem_singleton.1 hw
    have hflag : IsWord bareFlag := by decide
    exact isWord_flag hflag.plain
  | valued hflag _ hvalue _ =>
    cases hw with
    | head => exact isWord_flag hflag.plain
    | tail _ hw =>
      cases List.mem_singleton.1 hw
      exact hvalue

end Setting

/-- The options with others set, one after the other. -/
def setAll (t : Table String String) (settings : List Setting) : Table String String :=
  settings.foldl (fun t s => t.insert s.entry.1 s.entry.2) t

/-- The value that is set last for a flag. -/
def lastValue? (settings : List Setting) (flag : String) : Option String :=
  (settings.reverse.find? (·.entry.1 == flag)).map (·.entry.2)

theorem find?_setAll (t : Table String String) (settings : List Setting) (flag : String) :
    (setAll t settings).find? flag = (lastValue? settings flag).or (t.find? flag) := by
  induction settings generalizing t with
  | nil => rfl
  | cons s settings ih =>
    rw [setAll, List.foldl_cons, ← setAll, ih, Table.find?_insert, lastValue?, lastValue?, List.reverse_cons,
      List.find?_append, Option.map_or, Option.or_assoc]
    congr 1
    by_cases h : flag = s.entry.1
    · simp [h]
    · simp [h, Ne.symm h]

theorem toList_dash (flag : String) : ("-" ++ flag).toList = '-' :: flag.toList := String.toList_append

theorem options_bare (r : MapRecord) (rest : List Field) :
    options r (⟨"-" ++ bareFlag, false⟩ :: rest) = options (r.setOption bareFlag "") rest := by
  have hne : bareFlag ≠ "" := by decide
  rw [options, toList_dash]
  simp only [String.ofList_toList, beq_iff_eq, if_neg hne, if_true]

theorem options_valued {flag value : String} (hflag : flag ≠ "") (hbare : flag ≠ bareFlag)
    (hcheck : checkOption flag value = .ok ()) (r : MapRecord) (quoted : Bool) (rest : List Field) :
    options r (⟨"-" ++ flag, false⟩ :: ⟨value, quoted⟩ :: rest) = options (r.setOption flag value) rest := by
  rw [options, toList_dash]
  simp only [String.ofList_toList, beq_iff_eq, if_neg hflag, if_neg hbare, hcheck]

/-- **Options are read one after the other.** -/
theorem options_settings {settings : List Setting} (hs : ∀ s ∈ settings, s.IsValid) (r : MapRecord) :
    options r (unquoted (settings.flatMap Setting.fields)) =
      .ok { r with options := setAll r.options settings } := by
  induction settings generalizing r with
  | nil => rfl
  | cons s settings ih =>
    have hrest := ih fun s' h => hs s' (.tail s h)
    have hvalid : s.IsValid := hs s (.head settings)
    cases hvalid with
    | bare => exact (options_bare r _).trans (hrest _)
    | @valued flag value hflag hbare hvalue hcheck =>
      have hne : flag ≠ "" := fun h => hflag.nonempty (by rw [h]; rfl)
      exact (options_valued hne hbare hcheck r false _).trans (hrest _)

/-! ## Lines -/

/-- What a positional line says: a font, perhaps its encoding and its file, and options. -/
structure Positional where
  name : String
  encoding : Option String := none
  file : Option String := none
  settings : List Setting
  deriving DecidableEq, Repr

namespace Positional

/-- The encoding that stands before a file if there is none. -/
def noEncoding : String := "default"

/-- The fields behind the name and before the options. -/
def places (l : Positional) : List String :=
  match l.encoding, l.file with
  | none, none => []
  | some encoding, none => [encoding]
  | encoding, some file => [encoding.getD noEncoding, file]

/-- All fields behind the name. -/
def behind (l : Positional) : List String := l.places ++ l.settings.flatMap Setting.fields

/-- All fields of a line. -/
def fields (l : Positional) : List String := l.name :: l.behind

/-- The line, with single blanks between its fields. -/
def text (l : Positional) : String := " ".intercalate l.fields

/-- A word that is not the flag of an option. -/
structure IsPlace (s : String) : Prop extends IsWord s where
  dash : s.toList.head? ≠ some '-'

/-- All fields can be written and are accepted. -/
structure IsValid (l : Positional) : Prop where
  name : IsWord l.name
  first : ∀ c, l.name.toList.head? = some c → c ∉ ['%', '#', '*', ';']
  encoding : ∀ e ∈ l.encoding, IsPlace e ∧ e ≠ "default" ∧ e ≠ "none"
  file : ∀ f ∈ l.file, IsPlace f
  settings : ∀ s ∈ l.settings, s.IsValid

/-- The line has two fields, the second of which is an option. -/
def IsShortest (l : Positional) : Prop := l.encoding = none ∧ l.file = none ∧ l.settings = [.bare]

variable {l : Positional}

theorem isPlace_noEncoding : IsPlace noEncoding where
  toIsWord := by decide
  dash := by decide

theorem IsValid.isPlace (hl : l.IsValid) : ∀ w ∈ l.places, IsPlace w := by
  intro w hw
  rcases he : l.encoding with _ | e <;> rcases hf : l.file with _ | f <;>
    simp only [places, he, hf, Option.getD_none, Option.getD_some, List.not_mem_nil, List.mem_cons, or_false] at hw
  · obtain rfl | rfl := hw
    · exact isPlace_noEncoding
    · exact hl.file _ hf
  · rw [hw]
    exact (hl.encoding _ he).1
  · obtain rfl | rfl := hw
    · exact (hl.encoding _ he).1
    · exact hl.file _ hf

theorem IsValid.isWord (hl : l.IsValid) : ∀ w ∈ l.fields, IsWord w := by
  intro w hw
  simp only [fields, behind, List.mem_cons, List.mem_append, List.mem_flatMap] at hw
  obtain rfl | hw | ⟨s, hs, hw⟩ := hw
  · exact hl.name
  · exact (hl.isPlace w hw).toIsWord
  · exact (hl.settings s hs).isWord w hw

theorem places_eq_nil : l.places = [] ↔ l.encoding = none ∧ l.file = none := by
  rcases he : l.encoding with _ | e <;> rcases hf : l.file with _ | f <;> simp [places, he, hf]

theorem length_le_fields (settings : List Setting) : settings.length ≤ (settings.flatMap Setting.fields).length := by
  induction settings with
  | nil => exact Nat.le_refl 0
  | cons s settings ih =>
    rw [List.flatMap_cons, List.length_append, List.length_cons]
    cases s <;> simp only [Setting.fields, List.length_cons, List.length_nil] <;> omega

theorem length_fields (hs : l.settings ≠ []) : l.fields.length = 2 ↔ l.IsShortest := by
  constructor
  · intro h
    obtain ⟨s, settings, hcons⟩ := List.exists_cons_of_ne_nil hs
    have hrest := length_le_fields settings
    rw [fields, behind, hcons, List.length_cons, List.length_append, List.flatMap_cons, List.length_append] at h
    cases s with
    | valued flag value =>
      simp only [Setting.fields, List.length_cons, List.length_nil] at h
      omega
    | bare =>
      simp only [Setting.fields, List.length_cons, List.length_nil] at h
      have hplaces := places_eq_nil.1 (List.length_eq_zero_iff.1 (by omega : l.places.length = 0))
      have hsettings : settings = [] := List.length_eq_zero_iff.1 (by omega)
      exact ⟨hplaces.1, hplaces.2, by rw [hcons, hsettings]⟩
  · rintro ⟨he, hf, hsettings⟩
    rw [fields, behind, places_eq_nil.2 ⟨he, hf⟩, hsettings]
    rfl

end Positional

/-- Fields that do not begin with a place are options. -/
theorem positional_of_not_isPositional {fs : List Field} (hfs : ∀ f, fs.head? = some f → isPositional f = false)
    (texName : String) : positional texName fs = options { texName } fs := by
  cases fs with
  | nil => rfl
  | cons f fs => simp only [positional, hfs f rfl, Bool.false_eq_true, if_false]

theorem positional_cons {fs : List Field} (hfs : ∀ f, fs.head? = some f → isPositional f = false) {encoding : Field}
    (he : isPositional encoding = true) (texName : String) :
    positional texName (encoding :: fs) = options (({ texName } : MapRecord).setEncoding encoding.text) fs := by
  cases fs with
  | nil => simp only [positional, he, if_true, options]
  | cons f fs => simp only [positional, he, if_true, hfs f rfl, Bool.false_eq_true, if_false]

theorem positional_cons_cons {encoding file : Field} (he : isPositional encoding = true)
    (hf : isPositional file = true) (texName : String) (fs : List Field) : positional texName (encoding :: file :: fs) =
      options { ({ texName } : MapRecord).setEncoding encoding.text with file := some file.text } fs := by
  simp only [positional, he, hf, if_true]

theorem Positional.IsPlace.isPositional {w : String} (hw : IsPlace w) : isPositional ⟨w, false⟩ = true := by
  simpa [MapLine.isPositional] using hw.dash

theorem isPositional_settings (settings : List Setting) (f : Field)
    (hf : (unquoted (settings.flatMap Setting.fields)).head? = some f) :
    isPositional f = false := by
  have hdash (flag : String) : isPositional ⟨"-" ++ flag, false⟩ = false := by
    simp [isPositional]
  cases settings with
  | nil => cases hf
  | cons s settings =>
    cases s with
    | bare =>
      cases hf
      exact hdash bareFlag
    | valued flag value =>
      cases hf
      exact hdash flag

theorem setEncoding_of_ne {e : String} (hempty : e ≠ "") (hdefault : e ≠ "default") (hnone : e ≠ "none")
    (r : MapRecord) : r.setEncoding e = { r with encoding := some e } := by
  simp only [MapRecord.setEncoding, beq_eq_false_iff_ne.2 hempty, beq_eq_false_iff_ne.2 hdefault,
    beq_eq_false_iff_ne.2 hnone, Bool.or_self, Bool.false_eq_true, if_false]

open Positional in
/-- **The fields behind the name give the encoding, the file and the options.** -/
theorem positional_written {l : Positional} (hl : l.IsValid) :
    positional l.name (unquoted l.behind) =
      .ok { texName := l.name, encoding := l.encoding, file := l.file, options := setAll {} l.settings } := by
  have hoptions := options_settings hl.settings
  have hdash := isPositional_settings l.settings
  have hplace := fun w hw => (hl.isPlace w hw).isPositional
  have hset (e : String) (he : l.encoding = some e) (r : MapRecord) : r.setEncoding e = { r with encoding := some e } :=
    have ⟨hword, hdefault, hnone⟩ := hl.encoding e he
    setEncoding_of_ne (fun h => hword.nonempty (by rw [h]; rfl)) hdefault hnone r
  have hbehind : unquoted l.behind = unquoted l.places ++ unquoted (l.settings.flatMap Setting.fields) :=
    List.map_append
  rw [hbehind, unquoted]
  rcases he : l.encoding with _ | e <;> rcases hf : l.file with _ | f <;>
    simp only [places, he, hf, Option.getD_none, Option.getD_some, List.map_cons, List.map_nil, List.cons_append,
      List.nil_append, List.mem_cons, List.not_mem_nil, or_false, forall_eq_or_imp, forall_eq] at hplace ⊢
  · rw [positional_of_not_isPositional hdash, hoptions]
  · rw [positional_cons_cons hplace.1 hplace.2, hoptions]
    rfl
  · rw [positional_cons hdash hplace, hoptions, hset _ he]
  · rw [positional_cons_cons hplace.1 hplace.2, hoptions, hset _ he]

/-! ## Records -/

theorem isComment_eq_false {line : List Char} (hne : line ≠ [])
    (h : ∀ c, line.head? = some c → c ∉ ['%', '#', '*', ';']) : isComment line = false := by
  obtain ⟨c, cs, rfl⟩ := List.exists_cons_of_ne_nil hne
  simpa [isComment, and_assoc] using h c rfl

/-- Only the number of fields can mark a line of words. -/
theorem isMarked_joined {ws : List String} (hws : ∀ w ∈ ws, IsWord w) :
    isMarked (joined ws) (unquoted ws) = (ws.length == 2) := by
  have hnot (c : Char) (hplain : isPlain c = false) (hblank : c ≠ ' ') : (joined ws).contains c = false := by
    refine Bool.eq_false_iff.2 fun hc => ?_
    obtain h | h := isPlain_or_of_mem_joined hws (List.contains_iff_mem.1 hc)
    · rw [hplain] at h
      cases h
    · exact hblank h
  rw [isMarked, hnot '"' (by decide) (by decide), hnot '<' (by decide) (by decide), unquoted, List.length_map]
  rfl

/-- A line is marked or positional by the number of its fields. -/
theorem parse_text {l : Positional} (hl : l.IsValid) : parse l.text = some
    (if l.fields.length = 2 then marked { texName := l.name } (unquoted l.behind)
      else positional l.name (unquoted l.behind)) := by
  have hline : l.text.toList = joined l.fields := rfl
  have hcons : unquoted l.fields = ⟨l.name, false⟩ :: unquoted l.behind := rfl
  have hblanks : Text.dropBlanks (joined l.fields) = joined l.fields := dropBlanks_joined hl.isWord
  have hhead : (joined l.fields).head? = l.name.toList.head? := head?_joined hl.name _
  have hcomment : isComment (joined l.fields) = false := by
    refine isComment_eq_false (fun hnil => hl.name.nonempty ?_) fun c hc => hl.first c (hhead ▸ hc)
    rw [hnil] at hhead
    exact List.head?_eq_none_iff.1 hhead.symm
  have hfields := fields_joined hl.isWord
  have hmarked := isMarked_joined hl.isWord
  rw [hcons] at hfields hmarked
  simp only [parse, hline, hblanks, hcomment, hfields, hmarked, Bool.false_eq_true, if_false, beq_iff_eq]
  split <;> rfl

open Positional in
/-- **A positional line with options is read back**, unless it has two fields: then it is taken for a marked line, and
its option for the name of a font. -/
theorem parse_written {l : Positional} (hl : l.IsValid) (hs : l.settings ≠ []) :
    ∃ r, parse l.text = some (.ok r) ∧ r.texName = l.name ∧ r.encoding = l.encoding ∧ r.file = l.file ∧
      (¬ l.IsShortest → r.fontName = none ∧ ∀ flag, r.options.find? flag = lastValue? l.settings flag) ∧
      (l.IsShortest → r.fontName = some "-r" ∧ ∀ flag, r.options.find? flag = none) := by
  have hparse := parse_text hl
  by_cases hshort : l.IsShortest
  · rw [if_pos ((length_fields hs).2 hshort)] at hparse
    have ⟨he, hf, hsettings⟩ := hshort
    rw [behind, places_eq_nil.2 ⟨he, hf⟩, hsettings] at hparse
    exact ⟨_, hparse, rfl, he.symm, hf.symm, fun h => absurd hshort h, fun _ => ⟨rfl, fun _ => rfl⟩⟩
  · rw [if_neg fun h => hshort ((length_fields hs).1 h), positional_written hl] at hparse
    refine ⟨_, hparse, rfl, rfl, rfl, fun _ => ⟨rfl, fun flag => ?_⟩, fun h => absurd h hshort⟩
    rw [find?_setAll]
    exact Option.or_none

theorem checkOption_slant {value : String} (h : (Binary64.ofText value).isSome = true) :
    checkOption "s" value = .ok () := by
  simp only [checkOption, beq_self_eq_true, h, if_true]

/-- A font with an encoding, a file, and a slant that is set twice. -/
def slanted : Positional where
  name := "rml"
  encoding := some "H"
  file := some ":0:HeiseiMin-W3"
  settings := [.valued "s" "1", .valued "s" "-.167", .bare]

theorem parse_written_slanted : slanted.IsValid ∧ slanted.settings ≠ [] ∧
    slanted.text = "rml H :0:HeiseiMin-W3 -s 1 -s -.167 -r" ∧
    ∃ r, parse slanted.text = some (.ok r) ∧ r.encoding = some "H" ∧ r.file = some ":0:HeiseiMin-W3" ∧
      r.fontName = none ∧ r.options.find? "s" = some "-.167" ∧ r.options.find? "r" = some "" := by
  have hslant : Setting.IsValid (.valued "s" "1") :=
    .valued (by decide) (by decide) (by decide) (checkOption_slant (by decide +kernel))
  have hslant' : Setting.IsValid (.valued "s" "-.167") :=
    .valued (by decide) (by decide) (by decide) (checkOption_slant (by decide +kernel))
  have hvalid : slanted.IsValid := by
    refine ⟨by decide, ?_, ?_, ?_, ?_⟩
    · rintro c ⟨⟩
      decide
    · rintro e ⟨⟩
      exact ⟨⟨by decide, by decide⟩, by decide, by decide⟩
    · rintro f ⟨⟩
      exact ⟨by decide, by decide⟩
    · simpa [slanted] using ⟨hslant, hslant', Setting.IsValid.bare⟩
  have hne : slanted.settings ≠ [] := nofun
  have hlong : ¬ slanted.IsShortest := fun h => by cases h.1
  obtain ⟨r, hparse, -, hencoding, hfile, hrest, -⟩ := parse_written hvalid hne
  obtain ⟨hfont, hoptions⟩ := hrest hlong
  exact ⟨hvalid, hne, by decide, r, hparse, hencoding, hfile, hfont, (hoptions "s").trans (by decide),
    (hoptions "r").trans (by decide)⟩

/-- A font with one option and nothing else. -/
def flagged : Positional := { name := "cmr10", settings := [.bare] }

/-- The option is lost, and there is a font of its name. -/
theorem parse_flagged : flagged.IsValid ∧ flagged.settings ≠ [] ∧ flagged.text = "cmr10 -r" ∧
    lastValue? flagged.settings "r" = some "" ∧
    parse flagged.text = some (.ok { texName := "cmr10", fontName := some "-r" }) := by
  have hvalid : flagged.IsValid := by
    refine ⟨by decide, ?_, nofun, nofun, ?_⟩
    · rintro c ⟨⟩
      decide
    · simpa [flagged] using Setting.IsValid.bare
  exact ⟨hvalid, nofun, by decide, by decide, (parse_text hvalid).trans rfl⟩

end MapLine

end Dvi
