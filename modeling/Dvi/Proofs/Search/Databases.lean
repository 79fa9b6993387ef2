import Mathlib.Data.Finset.Card
import Dvi.Proofs.File.Paths
import Dvi.Search.Database

/-!
# What a database lists

A database is read line by line, with a current directory that is carried along. What it lists can be said of the lines
at once: the directories of a name are those that are current at the lines that are this name.

* `FileDatabase.IsFile`, `FileDatabase.IsDirectory`: what a line says;
  `FileDatabase.currentDirectory`, `FileDatabase.listed`: what the lines say together;
* `FileDatabase.Records`: the current directory and the entries after some lines;
  `Records.addLine`, `Records.foldl_addLine`: one line, and all of them;
* `FileDatabase.Chosen`: which directory of a name is chosen for a class;
* **`FileDatabase.records_listing`**: a database records its listing, and what is found in it.
-/

namespace Dvi

/-! ## Blanks and line ends -/

namespace Text

theorem dropBlanksEnd_concat {c : Char} (h : isBlank c = true) (cs : List Char) :
    dropBlanksEnd (cs ++ [c]) = dropBlanksEnd cs := by
  simp [dropBlanksEnd, h]

theorem dropBlanksEnd_dropReturn (line : List Char) : dropBlanksEnd (dropReturn line) = dropBlanksEnd line := by
  unfold dropReturn
  split
  · rename_i hreturn
    obtain ⟨cs, rfl⟩ := List.getLast?_eq_some_iff.1 hreturn
    rw [List.dropLast_concat, dropBlanksEnd_concat (by decide)]
  · rfl

/-- Lines are what stands between line feeds, up to blanks at their ends. Only behind the last line feed there may be
nothing, which is no line. -/
theorem splitLines_eq_splitOn {current : List Char} (hcurrent : '\n' ∉ current) (cs : List Char) :
    ((current.reverse ++ cs).splitOn '\n').map dropBlanksEnd = (splitLines current cs).map dropBlanksEnd ∨
      ((current.reverse ++ cs).splitOn '\n').map dropBlanksEnd = (splitLines current cs).map dropBlanksEnd ++ [[]] := by
  have hreverse : '\n' ∉ current.reverse := fun h => hcurrent (List.mem_reverse.1 h)
  fun_induction splitLines current cs with
  | case1 current hempty =>
    rw [List.isEmpty_iff.1 hempty]
    exact .inr rfl
  | case2 current hempty =>
    rw [List.append_nil, List.splitOn_eq_singleton hreverse]
    exact .inl rfl
  | case3 current rest ih =>
    rw [List.splitOn_append_cons_self_of_not_mem hreverse, List.map_cons, List.map_cons, dropBlanksEnd_dropReturn,
      List.cons_append]
    exact (ih List.not_mem_nil List.not_mem_nil).imp (congrArg _) (congrArg _)
  | case4 current c rest hc ih =>
    have hmem : '\n' ∉ c :: current := fun h => (List.mem_cons.1 h).elim (fun h => hc h.symm) hcurrent
    rw [List.append_cons, ← List.reverse_cons]
    exact ih hmem fun h => hmem (List.mem_reverse.1 h)

end Text

namespace FileDatabase

/-! ## Lines -/

/-- The lines of a text, each without the blanks at its end. -/
def linesOf (text : String) : List String :=
  (text.toList.splitOn '\n').map fun line => Text.trimEnd (String.ofList line)

/-- The line names a directory: it ends in a colon and is no comment. -/
def IsDirectory (line : String) : Prop := line.toList.head? ≠ some '%' ∧ line.toList.getLast? = some ':'

/-- The line names a file: it is not empty, no comment, and does not end in a colon. -/
def IsFile (line : String) : Prop :=
  line ≠ "" ∧ line.toList.head? ≠ some '%' ∧ line.toList.getLast? ≠ some ':'

instance : DecidablePred IsDirectory := fun _ => inferInstanceAs (Decidable (_ ∧ _))
instance : DecidablePred IsFile := fun _ => inferInstanceAs (Decidable (_ ∧ _ ∧ _))

theorem not_isFile_empty : ¬IsFile "" := fun h => h.1 rfl

/-- The directory that is current after some lines: the one that the last of them names that names one, or else the
root. -/
def currentDirectory (root : Path) (lines : List String) : Path :=
  match (lines.filter (IsDirectory ·)).getLast? with
  | some line => directoryOf root line.toList.dropLast
  | none => root

/-- The directories of a name: for each line that is this name, the directory that is current there. -/
def listed (root : Path) (lines : List String) (name : String) : List Path :=
  ((List.range lines.length).filter fun i => lines[i]? = some name ∧ IsFile name).map fun i =>
    currentDirectory root (lines.take i)

section Lines

variable (root : Path) (lines : List String) {line : String}

theorem currentDirectory_concat (hline : IsDirectory line) :
    currentDirectory root (lines ++ [line]) = directoryOf root line.toList.dropLast := by
  simp [currentDirectory, hline]

theorem currentDirectory_concat_of_not (hline : ¬IsDirectory line) :
    currentDirectory root (lines ++ [line]) = currentDirectory root lines := by
  simp [currentDirectory, hline]

theorem listed_concat (line name : String) : listed root (lines ++ [line]) name =
    listed root lines name ++ if line = name ∧ IsFile name then [currentDirectory root lines] else [] := by
  have hline : ∀ i ∈ List.range lines.length, (lines ++ [line])[i]? = lines[i]? :=
    fun i hi => List.getElem?_append_left (List.mem_range.1 hi)
  have htake : ∀ i ∈ List.range lines.length, (lines ++ [line]).take i = lines.take i :=
    fun i hi => List.take_append_of_le_length (List.mem_range.1 hi).le
  rw [listed, List.length_append, List.length_singleton, List.range_succ, List.filter_append, List.map_append]
  congr 1
  · rw [List.filter_congr fun i hi => by rw [hline i hi]]
    exact List.map_congr_left fun i hi => by rw [htake i (List.mem_of_mem_filter hi)]
  · by_cases h : line = name ∧ IsFile name <;> simp [h]

end Lines

example : listed ⟨"/texmf"⟩ (linesOf "% names\n./a:\nx\ny\n\n./b/./c:\nx\nx\n") "x" =
    [⟨"/texmf/a"⟩, ⟨"/texmf/b/c"⟩, ⟨"/texmf/b/c"⟩] := by decide +kernel

/-- What a line says depends on what is left when the blanks at its end are gone. -/
theorem Line.ofText_cases (text : String) :
    Line.ofText text = .nothing ∧ ¬IsFile (Text.trimEnd text) ∧ ¬IsDirectory (Text.trimEnd text) ∨
      Line.ofText text = .directory (Text.trimEnd text).toList.dropLast ∧ ¬IsFile (Text.trimEnd text) ∧
        IsDirectory (Text.trimEnd text) ∨
      Line.ofText text = .file (Text.trimEnd text) ∧ IsFile (Text.trimEnd text) ∧ ¬IsDirectory (Text.trimEnd text) := by
  have hempty : Text.trimEnd text = "" ↔ Text.dropBlanksEnd text.toList = [] := by
    rw [Text.trimEnd, String.ofList_eq_empty_iff]
  simp only [ofText, IsFile, IsDirectory, ne_eq, hempty]
  rw [Text.trimEnd, String.toList_ofList]
  generalize Text.dropBlanksEnd text.toList = cs
  by_cases hnothing : cs = [] ∨ cs.head? = some '%'
  · have hcolon : cs = [] → cs.getLast? ≠ some ':' := by rintro rfl; nofun
    refine .inl ⟨if_pos (by simpa using hnothing), fun h => hnothing.elim h.1 h.2.1, fun h => ?_⟩
    exact hnothing.elim (fun hnil => hcolon hnil h.2) h.1
  · rw [if_neg (by simpa using hnothing)]
    rw [not_or] at hnothing
    by_cases hcolon : cs.getLast? = some ':'
    · exact .inr (.inl ⟨if_pos (by simpa using hcolon), fun h => h.2.2 hcolon, hnothing.2, hcolon⟩)
    · exact .inr (.inr ⟨if_neg (by simpa using hcolon), ⟨hnothing.1, hnothing.2, hcolon⟩, fun h => hcolon h.2⟩)

/-! ## Reading -/

/-- The current directory and the entries are what some lines say. -/
structure Records (root : Path) (lines : List String) (state : Path × Std.HashMap String (Array Path)) : Prop where
  current : state.1 = currentDirectory root lines
  directories : ∀ name, (state.2.getD name #[]).toList = listed root lines name
  mem : ∀ name, name ∈ state.2 ↔ name ∈ lines ∧ IsFile name
  size : state.2.size = (lines.filter (IsFile ·)).toFinset.card

namespace Records

variable {root : Path} {lines : List String} {state : Path × Std.HashMap String (Array Path)}

theorem nil : Records root [] (root, ∅) where
  current := rfl
  directories name := by simp [listed]
  mem name := by simp
  size := by simp

theorem concat_of_not_isFile (h : Records root lines state) {line : String} (hline : ¬IsFile line) {current : Path}
    (hcurrent : current = currentDirectory root (lines ++ [line])) :
    Records root (lines ++ [line]) (current, state.2) where
  current := hcurrent
  directories name := by
    rw [listed_concat, if_neg fun hname : line = name ∧ IsFile name => hline (hname.1 ▸ hname.2), List.append_nil]
    exact h.directories name
  mem name := by
    rw [h.mem, List.mem_append, List.mem_singleton]
    refine ⟨fun hname => ⟨.inl hname.1, hname.2⟩, fun hname => ⟨hname.1.resolve_right ?_, hname.2⟩⟩
    rintro rfl
    exact hline hname.2
  size := by simp [h.size, hline]

theorem concat_of_isFile (h : Records root lines state) {line : String} (hfile : IsFile line)
    (hdirectory : ¬IsDirectory line) : Records root (lines ++ [line])
      (state.1, state.2.insert line ((state.2.getD line #[]).push state.1)) where
  current := h.current.trans (currentDirectory_concat_of_not root lines hdirectory).symm
  directories name := by
    rw [listed_concat, ← h.directories, ← h.current, Std.HashMap.getD_insert]
    by_cases hname : line = name
    · subst hname
      simp [hfile]
    · simp [hname]
  mem name := by
    rw [Std.HashMap.mem_insert, h.mem, beq_iff_eq, List.mem_append, List.mem_singleton]
    constructor
    · rintro (rfl | ⟨hname, hfile⟩)
      · exact ⟨.inr rfl, hfile⟩
      · exact ⟨.inl hname, hfile⟩
    · rintro ⟨hname | rfl, hfile⟩
      · exact .inr ⟨hname, hfile⟩
      · exact .inl rfl
  size := by
    have hfiles : (lines ++ [line]).filter (IsFile ·) = lines.filter (IsFile ·) ++ [line] := by simp [hfile]
    have hmem : line ∈ state.2 ↔ line ∈ (lines.filter (IsFile ·)).toFinset := by simp [h.mem]
    have hinsert : (lines.filter (IsFile ·) ++ [line]).toFinset = insert line (lines.filter (IsFile ·)).toFinset := by
      rw [List.toFinset_append, Finset.union_comm]
      rfl
    rw [Std.HashMap.size_insert, h.size, hfiles, hinsert]
    by_cases hline : line ∈ state.2
    · rw [if_pos hline, Finset.insert_eq_of_mem (hmem.1 hline)]
    · rw [if_neg hline, Finset.card_insert_of_notMem fun hm => hline (hmem.2 hm)]

/-- **One line.** -/
theorem addLine (h : Records root lines state) (text : String) :
    Records root (lines ++ [Text.trimEnd text]) (FileDatabase.addLine root state text) := by
  obtain ⟨hline, hfile, hdirectory⟩ | ⟨hline, hfile, hdirectory⟩ | ⟨hline, hfile, hdirectory⟩ := Line.ofText_cases text
  all_goals simp only [FileDatabase.addLine, hline]
  · exact h.concat_of_not_isFile hfile (h.current.trans (currentDirectory_concat_of_not root lines hdirectory).symm)
  · exact h.concat_of_not_isFile hfile (currentDirectory_concat root lines hdirectory).symm
  · exact h.concat_of_isFile hfile hdirectory

/-- **All lines**, one after the other. -/
theorem foldl_addLine (h : Records root lines state) (texts : List String) :
    Records root (lines ++ texts.map Text.trimEnd) (texts.foldl (FileDatabase.addLine root) state) := by
  induction texts generalizing lines state with
  | nil => rwa [List.map_nil, List.append_nil]
  | cons text texts ih =>
    rw [List.map_cons, List.append_cons]
    exact ih (h.addLine text)

theorem concat_empty (h : Records root lines state) : Records root (lines ++ [""]) state := by
  have hdirectory : ¬IsDirectory "" := by decide
  exact h.concat_of_not_isFile not_isFile_empty
    (h.current.trans (currentDirectory_concat_of_not root lines hdirectory).symm)

end Records

section OfText

variable (text : String) (root : Path) (label : String)

theorem linesOf_cases : linesOf text = (Text.lines text).map Text.trimEnd ∨
    linesOf text = (Text.lines text).map Text.trimEnd ++ [""] := by
  have htrim : ∀ lines : List (List Char),
      lines.map (fun line => Text.trimEnd (String.ofList line)) = (lines.map Text.dropBlanksEnd).map String.ofList := by
    intro lines
    simp [Text.trimEnd]
  have hlines : (Text.lines text).map Text.trimEnd =
      ((Text.splitLines [] text.toList).map Text.dropBlanksEnd).map String.ofList := by
    rw [Text.lines, List.map_map, ← htrim]
    rfl
  rw [linesOf, htrim, hlines]
  refine (Text.splitLines_eq_splitOn List.not_mem_nil text.toList).imp (congrArg _) fun h => ?_
  rw [List.reverse_nil, List.nil_append] at h
  rw [h, List.map_append]
  rfl

theorem records_ofText : ∃ current, Records root (linesOf text) (current, (ofText text root label).entries) := by
  have h := (@Records.nil root).foldl_addLine (Text.lines text)
  obtain hlines | hlines := linesOf_cases text
  · exact ⟨_, hlines ▸ h⟩
  · exact ⟨_, hlines ▸ h.concat_empty⟩

theorem directories_ofText (name : String) :
    (ofText text root label).directories name = listed root (linesOf text) name := by
  obtain ⟨current, h⟩ := records_ofText text root label
  exact h.directories name

theorem size_ofText : (ofText text root label).size = ((linesOf text).filter (IsFile ·)).toFinset.card := by
  obtain ⟨current, h⟩ := records_ofText text root label
  exact h.size

theorem ofBytes_toUTF8 : ofBytes text.toUTF8 none root label = .ok (ofText text root label) := by
  have hdecode : Utf8.decode? text.toUTF8 = some text := by
    rw [Utf8.decode?, String.fromUTF8?, String.toUTF8_eq_toByteArray, dif_pos text.isValidUTF8]
    rfl
  rw [ofBytes, hdecode]

end OfText

/-! ## Look-ups -/

/-- The directory lies in the tree of the class: the components of where the class is kept stand side by side among
its own. -/
def InTree (c : ResourceClass) (dir : Path) : Prop := (Path.mk c.subdirectory).components <:+: dir.components

/-- The directory that is chosen for a class: the first that lies in its tree, or the first of all if none does. -/
inductive Chosen (c : ResourceClass) : List Path → Path → Prop
  | inTree {before after : List Path} {dir : Path} (hdir : InTree c dir) (hbefore : ∀ other ∈ before, ¬InTree c other) :
    Chosen c (before ++ dir :: after) dir
  | first {dir : Path} {after : List Path} (hall : ∀ other ∈ dir :: after, ¬InTree c other) :
    Chosen c (dir :: after) dir

theorem contains_subdirectory_iff {c : ResourceClass} {dir : Path} :
    dir.contains ⟨c.subdirectory⟩ = true ↔ InTree c dir := by
  have hne : (Path.mk c.subdirectory).components ≠ [] := by cases c <;> decide +kernel
  rw [Path.contains_iff, InTree, and_iff_right hne]

theorem contains_subdirectory_eq_false_iff {c : ResourceClass} {dir : Path} :
    dir.contains ⟨c.subdirectory⟩ = false ↔ ¬InTree c dir := by
  rw [← contains_subdirectory_iff, Bool.not_eq_true]

/-- The directory that a look-up chooses for a class. -/
def choice (c : ResourceClass) (dirs : List Path) : Option Path :=
  (dirs.find? fun dir => dir.contains ⟨c.subdirectory⟩) <|> dirs.head?

section Find

variable {d : FileDatabase} {c : ResourceClass} {candidates : List String} {dirs : List Path} {dir : Path}

theorem Chosen.choice (h : Chosen c dirs dir) : choice c dirs = some dir := by
  cases h with
  | @inTree before after _ hdir hbefore =>
    have hfind : (before ++ dir :: after).find? (fun dir => dir.contains ⟨c.subdirectory⟩) = some dir :=
      List.find?_eq_some_iff_append.2 ⟨contains_subdirectory_iff.2 hdir, before, after, rfl, fun other hother =>
        by simpa [contains_subdirectory_eq_false_iff] using hbefore other hother⟩
    rw [FileDatabase.choice, hfind]
    rfl
  | @first _ after hall =>
    have hfind : (dir :: after).find? (fun dir => dir.contains ⟨c.subdirectory⟩) = none :=
      List.find?_eq_none.2 fun other hother => by simpa [contains_subdirectory_iff] using hall other hother
    rw [FileDatabase.choice, hfind]
    rfl

theorem choice_eq_some_iff : choice c dirs = some dir ↔ Chosen c dirs dir := by
  refine ⟨fun h => ?_, Chosen.choice⟩
  rw [choice] at h
  cases hfind : dirs.find? fun dir => dir.contains ⟨c.subdirectory⟩ with
  | some found =>
    obtain ⟨hfound, before, after, rfl, hbefore⟩ := List.find?_eq_some_iff_append.1 hfind
    rw [hfind] at h
    obtain rfl := Option.some.inj h
    exact .inTree (contains_subdirectory_iff.1 hfound) fun other hother =>
      by simpa [contains_subdirectory_eq_false_iff] using hbefore other hother
  | none =>
    rw [hfind] at h
    obtain ⟨after, rfl⟩ := List.head?_eq_some_iff.1 h
    exact .first fun other hother => by simpa [contains_subdirectory_iff] using List.find?_eq_none.1 hfind other hother

theorem choice_eq_none_iff : choice c dirs = none ↔ dirs = [] := by
  cases dirs with
  | nil => exact iff_of_true rfl rfl
  | cons dir dirs =>
    rw [choice]
    cases (dir :: dirs).find? fun dir => dir.contains ⟨c.subdirectory⟩ <;> exact iff_of_false (by simp) (by simp)

variable (d c candidates)

theorem find_eq : d.find c candidates =
    candidates.findSome? fun name => (choice c (d.directories name)).map fun dir => dir.join ⟨name⟩ :=
  rfl

variable {d c candidates}

theorem find_eq_none_iff : d.find c candidates = none ↔ ∀ name ∈ candidates, d.directories name = [] := by
  simp only [find_eq, List.findSome?_eq_none_iff, Option.map_eq_none_iff, choice_eq_none_iff]

theorem find_eq_some_iff {p : Path} : d.find c candidates = some p ↔ ∃ before name after dir,
    candidates = before ++ name :: after ∧ (∀ other ∈ before, d.directories other = []) ∧
      Chosen c (d.directories name) dir ∧ p = dir.join ⟨name⟩ := by
  simp only [find_eq, List.findSome?_eq_some_iff, Option.map_eq_some_iff, choice_eq_some_iff, Option.map_eq_none_iff,
    choice_eq_none_iff]
  constructor
  · rintro ⟨before, name, after, hcandidates, ⟨dir, hdir, rfl⟩, hbefore⟩
    exact ⟨before, name, after, dir, hcandidates, hbefore, hdir, rfl⟩
  · rintro ⟨before, name, after, dir, hcandidates, hbefore, hdir, rfl⟩
    exact ⟨before, name, after, hcandidates, ⟨dir, hdir, rfl⟩, hbefore⟩

end Find

/-- **A database records exactly its listing.** The directories of a name are those that are current at the lines that
are this name, in the order of the lines and as often; names are counted once. A line that ends in a colon and is no
comment names the current directory for what follows, seen from the root and without its `.` components. What is found
is the first candidate that is listed, in the first of its directories that lies in the tree of the class, or else in
the first of all; nothing is found if none is listed. -/
theorem records_listing (text : String) (root : Path) (label : String) :
    ∃ d, ofBytes text.toUTF8 none root label = .ok d ∧
      (∀ name, d.directories name = listed root (linesOf text) name) ∧
      d.size = ((linesOf text).filter (IsFile ·)).toFinset.card ∧
      (∀ line : List Char, (directoryOf root line).components =
        if (Path.mk (String.ofList line)).isAbsolute then (Path.mk (String.ofList line)).components
        else root.components ++ (Path.mk (String.ofList line)).components.filter (· != .here)) ∧
      ∀ (c : ResourceClass) (candidates : List String),
        (d.find c candidates = none ↔ ∀ name ∈ candidates, listed root (linesOf text) name = []) ∧
        ∀ p, d.find c candidates = some p ↔ ∃ before name after dir, candidates = before ++ name :: after ∧
          (∀ other ∈ before, listed root (linesOf text) other = []) ∧
          Chosen c (listed root (linesOf text) name) dir ∧ p = dir.join ⟨name⟩ := by
  refine ⟨ofText text root label, ofBytes_toUTF8 text root label, directories_ofText text root label,
    size_ofText text root label, fun line => Path.components_join_filter root _, fun c candidates => ?_⟩
  simp only [find_eq_none_iff, find_eq_some_iff, directories_ofText, implies_true, and_self]

/-- A comment that ends in a colon names no directory: what follows it is not listed there. -/
theorem directories_after_comment :
    ¬∀ (text : String) (root : Path) (label : String) (d : FileDatabase), ofBytes text.toUTF8 none root label = .ok d →
      ∀ before line name after, linesOf text = before ++ line :: name :: after → line.toList.getLast? = some ':' →
        IsFile name → directoryOf root line.toList.dropLast ∈ d.directories name := by
  intro h
  have hlisted : listed ⟨"r"⟩ (linesOf "%a:\nx\n") "x" = [⟨"r"⟩] := by decide +kernel
  have hmem := h "%a:\nx\n" ⟨"r"⟩ "label" _ (ofBytes_toUTF8 ..) [] "%a:" "x" [""] (by decide +kernel)
    (by decide +kernel) (by decide +kernel)
  rw [directories_ofText, hlisted] at hmem
  revert hmem
  decide +kernel

end FileDatabase

end Dvi
