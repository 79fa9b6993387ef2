import Mathlib.Algebra.Group.Nat.Even
import Dvi.Font.MapLine

/-!
# Quotes and words

The quotes of a line split it into pieces, and every other piece stands between quotes. It is a field as it is, and the
pieces around it hold words, which separators split. If the last piece stands behind a quote, this quote is not closed.

* `MapLine.words`, `MapLine.alternating`: the fields of one piece outside quotes, and of all pieces;
* `MapLine.fieldsFrom_eq`: fields from a position on;
* `MapLine.fieldsFrom_ne_nil`, `Text.isBlank_head_dropBlanks`: a line without blanks at its front has a field;
* **`MapLine.readFields_and_parse`**: the fields of a line, and the lines that say nothing.
-/

namespace Dvi

/-! ## Splitting -/

theorem splitOn_append_of_not_mem {α : Type} [BEq α] [LawfulBEq α] {a : α} {as bs piece : List α}
    {pieces : List (List α)} (has : a ∉ as) (hbs : bs.splitOn a = piece :: pieces) :
    (as ++ bs).splitOn a = (as ++ piece) :: pieces := by
  induction as with
  | nil => exact hbs
  | cons x as ih =>
    rw [List.mem_cons, not_or] at has
    rw [List.cons_append, List.splitOn_cons_eq_if_modifyHead, if_neg (by simpa using Ne.symm has.1), ih has.2]
    rfl

namespace MapLine

/-- The words of a piece outside quotes: what stands between separators, unless it is empty. -/
def words (cs : List Char) : List Field :=
  ((cs.splitOnP Text.isSeparator).filter (· ≠ [])).map fun word => ⟨String.ofList word, false⟩

/-- The fields of pieces that stand outside and inside quotes in turn. -/
def alternating : Bool → List (List Char) → List Field
  | _, [] => []
  | false, piece :: rest => words piece ++ alternating true rest
  | true, piece :: rest => ⟨String.ofList piece, true⟩ :: alternating false rest

theorem words_nil : words [] = [] := rfl

theorem words_separator {c : Char} (hc : Text.isSeparator c = true) (cs : List Char) : words (c :: cs) = words cs := by
  rw [words, List.splitOnP_cons_eq_if_modifyHead, if_pos hc]
  rfl

section Word

variable {word : List Char} (hne : word ≠ []) (hword : ∀ c ∈ word, Text.isSeparator c = false)

include hne hword

theorem words_word : words word = [⟨String.ofList word, false⟩] := by
  rw [words, List.splitOnP_eq_singleton hword]
  simp [hne]

theorem words_word_separator {c : Char} (hc : Text.isSeparator c = true) (cs : List Char) :
    words (word ++ c :: cs) = ⟨String.ofList word, false⟩ :: words cs := by
  rw [words, List.splitOnP_append_cons_of_forall_mem hword c hc]
  simp [hne, words]

end Word

/-! ## Reading -/

/-- The field that is under way. -/
def Scan.read : Scan → List Char
  | .between => []
  | .word read | .quote read => read

/-- A quote is open. -/
def Scan.isQuote : Scan → Bool
  | .between | .word _ => false
  | .quote _ => true

/-- What was read of a field can belong to it. -/
def Scan.IsValid : Scan → Prop
  | .between => True
  | .word read => read ≠ [] ∧ ∀ c ∈ read, c ≠ '"' ∧ Text.isSeparator c = false
  | .quote read => '"' ∉ read

theorem Scan.IsValid.word {read : List Char} (hs : (Scan.word read).IsValid) :
    read.reverse ≠ [] ∧ (∀ c ∈ read.reverse, Text.isSeparator c = false) ∧ '"' ∉ read.reverse :=
  ⟨by simpa using hs.1, fun c hc => (hs.2 c (List.mem_reverse.1 hc)).2,
    fun hquote => (hs.2 '"' (List.mem_reverse.1 hquote)).1 rfl⟩

/-- **The fields from a position on** are those of the pieces, from the one under way on, if the last of these stands
outside quotes. -/
theorem fieldsFrom_eq (s : Scan) (cs : List Char) (hs : s.IsValid) : fieldsFrom s cs =
    if Even (cs.count '"') ↔ s.isQuote = false then some (alternating s.isQuote ((s.read.reverse ++ cs).splitOn '"'))
    else none := by
  have hclose {piece : List Char} (hpiece : '"' ∉ piece) (rest : List Char) :
      (piece ++ '"' :: rest).splitOn '"' = piece :: rest.splitOn '"' :=
    List.splitOn_append_cons_self_of_not_mem hpiece rest
  have hopen (rest : List Char) : ('"' :: rest).splitOn '"' = [] :: rest.splitOn '"' := hclose List.not_mem_nil rest
  fun_induction fieldsFrom s cs with
  | case1 => rfl
  | case2 read =>
    obtain ⟨hne, hword, hquote⟩ := hs.word
    simp [Scan.read, Scan.isQuote, List.splitOn_eq_singleton hquote, alternating, words_word hne hword]
  | case3 read => rfl
  | case4 rest ih =>
    rw [ih List.not_mem_nil]
    simp [Scan.read, Scan.isQuote, Nat.even_add_one, hopen, alternating, words_nil]
  | case5 c rest hc hseparator ih =>
    obtain ⟨piece, pieces, hsplit⟩ := List.exists_cons_of_ne_nil (List.splitOn_ne_nil '"' rest)
    have hquote : '"' ∉ [c] := by simpa using Ne.symm hc
    have hcons : (c :: rest).splitOn '"' = (c :: piece) :: pieces := splitOn_append_of_not_mem hquote hsplit
    rw [ih trivial]
    simp [Scan.read, Scan.isQuote, List.count_cons_of_ne hc, hsplit, hcons, alternating, words_separator hseparator]
  | case6 c rest hc hseparator ih =>
    rw [ih ⟨List.cons_ne_nil c [], by simpa [hc] using hseparator⟩]
    simp [Scan.read, Scan.isQuote, List.count_cons_of_ne hc]
  | case7 read rest ih =>
    obtain ⟨hne, hword, hquote⟩ := hs.word
    rw [ih List.not_mem_nil, apply_ite (Option.map _)]
    simp [Scan.read, Scan.isQuote, Nat.even_add_one, hclose hquote, alternating, words_word hne hword]
  | case8 read c rest hc hseparator ih =>
    obtain ⟨hne, hword, hquote⟩ := hs.word
    obtain ⟨piece, pieces, hsplit⟩ := List.exists_cons_of_ne_nil (List.splitOn_ne_nil '"' rest)
    have hquote : '"' ∉ read.reverse ++ [c] := by simpa [Ne.symm hc] using hquote
    have hcons : (read.reverse ++ c :: rest).splitOn '"' = (read.reverse ++ c :: piece) :: pieces := by
      rw [List.append_cons, splitOn_append_of_not_mem hquote hsplit, ← List.append_cons]
    rw [ih trivial, apply_ite (Option.map _)]
    simp [Scan.read, Scan.isQuote, List.count_cons_of_ne hc, hsplit, hcons, alternating,
      words_word_separator hne hword hseparator]
  | case9 read c rest hc hseparator ih =>
    have hvalid : (Scan.word (c :: read)).IsValid := by
      refine ⟨List.cons_ne_nil c read, fun d hd => ?_⟩
      obtain rfl | hd := List.mem_cons.1 hd
      · exact ⟨hc, by simpa using hseparator⟩
      · exact hs.2 d hd
    rw [ih hvalid]
    simp [Scan.read, Scan.isQuote, List.count_cons_of_ne hc]
  | case10 read rest ih =>
    have hquote : '"' ∉ read.reverse := fun h => hs (List.mem_reverse.1 h)
    rw [ih trivial, apply_ite (Option.map _)]
    simp [Scan.read, Scan.isQuote, Nat.even_add_one, hclose hquote, alternating]
  | case11 read c rest hc ih =>
    rw [ih fun h => (List.mem_cons.1 h).elim (Ne.symm hc) hs]
    simp [Scan.read, Scan.isQuote, List.count_cons_of_ne hc]

theorem fieldsFrom_ne_nil {s : Scan} (cs : List Char) (hs : s ≠ .between) : fieldsFrom s cs ≠ some [] := by
  fun_induction fieldsFrom s cs with
  | case1 | case4 | case5 | case6 => exact absurd rfl hs
  | case2 | case3 | case7 | case8 | case10 => simp
  | case9 read c rest hc hseparator ih => exact ih (by simp)
  | case11 read c rest hc ih => exact ih (by simp)

theorem fields_ne_nil {c : Char} (hc : Text.isSeparator c = false) (cs : List Char) : fields (c :: cs) ≠ some [] := by
  rw [fields_eq, fieldsFrom]
  split
  · exact fieldsFrom_ne_nil cs nofun
  · rw [hc, if_neg nofun]
    exact fieldsFrom_ne_nil cs nofun

end MapLine

/-! ## Blanks at the front -/

namespace Text

theorem isBlank_of_head?_dropBlanks {cs : List Char} {c : Char} (h : (dropBlanks cs).head? = some c) :
    isBlank c = false := by
  have hprefix : dropBlanks cs <+: cs.dropWhile isBlank := by
    rw [← List.reverse_suffix, dropBlanks, dropBlanksEnd, List.reverse_reverse]
    exact List.dropWhile_suffix _
  obtain ⟨blanks, happend⟩ := hprefix
  have hdrop := List.head?_dropWhile_not isBlank cs
  rw [← happend, List.head?_append, h] at hdrop
  simpa using hdrop

end Text

namespace MapLine

/-- The four signs of lines that say nothing. -/
def commentSigns : List Char := ['%', '#', '*', ';']

theorem isComment_iff {cs : List Char} :
    isComment cs = true ↔ cs = [] ∨ ∃ c ∈ commentSigns, cs.head? = some c := by
  cases cs with
  | nil => simp [isComment]
  | cons c cs => simp [isComment, commentSigns, or_assoc]

theorem parse_eq_none_iff {text : String} : parse text = none ↔ Text.dropBlanks text.toList = [] ∨
    ∃ c ∈ commentSigns, (Text.dropBlanks text.toList).head? = some c := by
  have hisBlank (c : Char) := @Text.isBlank_of_head?_dropBlanks text.toList c
  rw [← isComment_iff, parse]
  generalize Text.dropBlanks text.toList = line at hisBlank
  by_cases hcomment : isComment line = true
  · simp [hcomment]
  have hfields : fields line ≠ some [] := by
    cases line with
    | nil => exact absurd rfl hcomment
    | cons c rest =>
      refine fields_ne_nil (Bool.eq_false_iff.2 fun hseparator => ?_) rest
      exact absurd (Text.isBlank_of_isSeparator hseparator) (by rw [hisBlank c rfl]; exact Bool.false_ne_true)
  simp only [hcomment, Bool.false_eq_true, if_false, iff_false]
  split
  · exact Option.some_ne_none _
  · exact fun _ => hfields ‹_›
  · split
    · exact Option.some_ne_none _
    · split <;> exact Option.some_ne_none _

/-- **The fields of a line are what its quotes split it into**: the words of the first piece, the second as it is, and
so on in turn; a quote is not closed if and only if there is an odd number of them, and nothing is ever cut inside a
character. So the lines that say nothing are those that are empty without the blanks around them, or begin with one of
four signs. -/
theorem readFields_and_parse :
    (∀ line : String, readFields line =
      if Even (line.toList.count '"') then .ok (alternating false (line.toList.splitOn '"'))
      else .error .unterminatedQuote) ∧
    ∀ text : String, parse text = none ↔ Text.dropBlanks text.toList = [] ∨
      ∃ c ∈ commentSigns, (Text.dropBlanks text.toList).head? = some c := by
  refine ⟨fun line => ?_, fun text => parse_eq_none_iff⟩
  have h := readFields_ofList line.toList
  rw [String.ofList_toList, fieldsFrom_eq .between _ trivial] at h
  rw [h]
  simp only [Scan.isQuote, Scan.read, List.reverse_nil, List.nil_append, iff_true]
  split <;> rfl

example : readFields "é\"\"\t<a \"b ç\"" = .ok [⟨"é", false⟩, ⟨"", true⟩, ⟨"<a", false⟩, ⟨"b ç", true⟩] := by cbv

end MapLine

end Dvi
