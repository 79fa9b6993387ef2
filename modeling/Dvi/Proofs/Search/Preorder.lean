import Dvi.Proofs.File.Writing
import Dvi.Search.Directory

/-!
# The order of a recursive search

What lies below a directory is named by the lists of names that lead to it. In the lexicographic order of these lists
a directory comes before all that lies below it, and what lies below one directory comes before the next one by name.
A recursive search finds the first directory in this order that holds a candidate.

* `Path.descend`, `FileTree.Reaches`: names that lead from a directory to one below it, with directories on the way
  that can be listed;
* `FileTree.exists_subdirectories`: the directories inside one, in their order;
* `FileTree.findBelow_eq_none_iff`, **`FileTree.findBelow_eq_some_iff`**: what is found down to any depth;
* **`FileTree.findBelow_iff_isFirst`**: what is found down to the depth of a search.
-/

namespace Dvi

/-- Where names lead, one after the other. -/
def Path.descend (p : Path) (names : List String) : Path := names.foldl (fun p name => p.join ⟨name⟩) p

theorem Path.descend_cons (p : Path) (name : String) (names : List String) :
    p.descend (name :: names) = (p.join ⟨name⟩).descend names := rfl

namespace FileTree

/-! ## Directories below a directory -/

section Reaches

variable (t : FileTree)

/-- In the directory at a path there is a directory of this name. -/
def HasDirectory (p : Path) (name : String) : Prop :=
  ∃ place entries inside, t.locate p = .ok place ∧ place.node = .directory entries ∧ (name, .directory inside) ∈ entries

/-- The entries of the directory at a path can be listed. -/
def IsReadable (p : Path) : Prop := ∃ entries, t.list p = .ok entries

/-- The names lead from a directory to one below it, and all directories before the last can be listed. -/
structure Reaches (start : Path) (names : List String) : Prop where
  directory : ∀ above name below, names = above ++ name :: below → t.HasDirectory (start.descend above) name
  readable : ∀ above name below, names = above ++ name :: below → t.IsReadable (start.descend above)

theorem reaches_nil (start : Path) : t.Reaches start [] :=
  ⟨fun _ _ _ h => by simp at h, fun _ _ _ h => by simp at h⟩

theorem reaches_cons {start : Path} {name : String} {names : List String} : t.Reaches start (name :: names) ↔
    (t.IsReadable start ∧ t.HasDirectory start name) ∧ t.Reaches (start.join ⟨name⟩) names := by
  constructor
  · intro h
    refine ⟨⟨h.readable [] name names rfl, h.directory [] name names rfl⟩, ?_, ?_⟩
    · rintro above next below rfl
      exact h.directory (name :: above) next below rfl
    · rintro above next below rfl
      exact h.readable (name :: above) next below rfl
  · rintro ⟨⟨hread, hname⟩, h⟩
    refine ⟨fun above next below hsplit => ?_, fun above next below hsplit => ?_⟩
    · obtain ⟨rfl, hnext⟩ | ⟨above, rfl, hnext⟩ := List.cons_eq_append_iff.1 hsplit
      · obtain ⟨rfl, -⟩ := List.cons.inj hnext
        exact hname
      · exact h.directory above next below hnext
    · obtain ⟨rfl, hnext⟩ | ⟨above, rfl, hnext⟩ := List.cons_eq_append_iff.1 hsplit
      · exact hread
      · exact h.readable above next below hnext

theorem directoryName_eq_some_iff {e : String × Node} {name : String} :
    directoryName e = some name ↔ ∃ inside, e = (name, .directory inside) := by
  obtain ⟨name', node⟩ := e
  cases node <;> simp [directoryName]

theorem hasDirectory_iff {t : FileTree} {p : Path} {entries : List (String × Node)} (hl : t.list p = .ok entries)
    {name : String} : t.HasDirectory p name ↔ name ∈ entries.filterMap directoryName := by
  obtain ⟨place, hlocate, hnode, -⟩ := list_eq_ok_iff.1 hl
  simp only [List.mem_filterMap, directoryName_eq_some_iff]
  constructor
  · rintro ⟨place', entries', inside, hlocate', hnode', hmem⟩
    obtain rfl := Except.ok.inj (hlocate.symm.trans hlocate')
    obtain rfl := Node.directory.inj (hnode.symm.trans hnode')
    exact ⟨_, hmem, inside, rfl⟩
  · rintro ⟨_, hmem, inside, rfl⟩
    exact ⟨place, entries, inside, hlocate, hnode, hmem⟩

theorem exists_subdirectories (p : Path) : ∃ names : List String,
    t.subdirectories p = names.map (fun name => p.join ⟨name⟩) ∧ names.Pairwise (· ≤ ·) ∧
    ∀ name, name ∈ names ↔ t.IsReadable p ∧ t.HasDirectory p name := by
  by_cases hread : t.IsReadable p
  · obtain ⟨entries, hl⟩ := hread
    refine ⟨_, subdirectories_eq hl, ?_, fun name => ?_⟩
    · have hsorted := @List.pairwise_mergeSort String (fun a b => decide (a ≤ b))
        (fun a b c => by simpa using String.le_trans) (fun a b => by simpa using String.le_total a b)
        (entries.filterMap directoryName)
      simpa using hsorted
    · rw [List.mem_mergeSort, hasDirectory_iff hl]
      exact ⟨fun h => ⟨⟨entries, hl⟩, h⟩, And.right⟩
  · refine ⟨[], ?_, .nil, fun name => ⟨nofun, fun h => absurd h.1 hread⟩⟩
    exact subdirectories_of_not_listed fun entries hl => hread ⟨entries, hl⟩

end Reaches

/-! ## What is found -/

section Sorted

variable {before after : List String} {name other : String} (h : (before ++ name :: after).Pairwise (· ≤ ·))

include h

theorem mem_of_lt_of_sorted (hmem : other ∈ before ++ name :: after) (hlt : other < name) : other ∈ before := by
  refine (List.mem_append.1 hmem).resolve_right fun hafter => ?_
  have hle : name ≤ other := by
    obtain rfl | hafter := List.mem_cons.1 hafter
    · exact String.le_refl other
    · exact (List.pairwise_cons.1 (List.pairwise_append.1 h).2.1).1 other hafter
  exact String.not_le.2 hlt hle

theorem lt_of_mem_of_sorted (hmem : other ∈ before) (hname : name ∉ before) : other < name := by
  have hle : other ≤ name := (List.pairwise_append.1 h).2.2 other hmem name (.head after)
  exact String.not_le.1 fun hge => hname (String.le_antisymm hle hge ▸ hmem)

end Sorted

section Find

variable {t : FileTree} {candidates : List String}

theorem findBelow_eq_none_iff {depth : Nat} {start : Path} : t.findBelow candidates depth start = none ↔
    ∀ names : List String, names.length ≤ depth → t.Reaches start names →
      t.findIn candidates (start.descend names) = none := by
  induction depth generalizing start with
  | zero =>
    rw [findBelow]
    refine ⟨fun h names hlength _ => ?_, fun h => h [] (Nat.le_refl 0) (t.reaches_nil start)⟩
    obtain rfl := List.length_eq_zero_iff.1 (Nat.le_zero.1 hlength)
    exact h
  | succ depth ih =>
    obtain ⟨inside, hinside, -, hmem⟩ := t.exists_subdirectories start
    rw [findBelow, Option.orElse_eq_orElse, Option.orElse_eq_or, Option.or_eq_none_iff, hinside, List.findSome?_map,
      List.findSome?_eq_none_iff]
    constructor
    · rintro ⟨hhere, hbelow⟩ (_ | ⟨name, names⟩) hlength hreach
      · exact hhere
      · obtain ⟨hname, hreach⟩ := t.reaches_cons.1 hreach
        exact ih.1 (hbelow name ((hmem name).2 hname)) names (Nat.le_of_succ_le_succ hlength) hreach
    · intro h
      refine ⟨h [] (Nat.zero_le _) (t.reaches_nil start), fun name hname => ih.2 fun names hlength hreach => ?_⟩
      exact h (name :: names) (Nat.succ_le_succ hlength) (t.reaches_cons.2 ⟨(hmem name).1 hname, hreach⟩)

/-- **What is found lies in the first directory in which something is found.** -/
theorem findBelow_eq_some_iff {depth : Nat} {start p : Path} : t.findBelow candidates depth start = some p ↔
    ∃ names : List String, names.length ≤ depth ∧ t.Reaches start names ∧
      t.findIn candidates (start.descend names) = some p ∧
      ∀ others < names, others.length ≤ depth → t.Reaches start others →
        t.findIn candidates (start.descend others) = none := by
  induction depth generalizing start with
  | zero =>
    rw [findBelow]
    constructor
    · exact fun h => ⟨[], Nat.le_refl 0, t.reaches_nil start, h, fun others hlt => absurd hlt (List.not_lt_nil others)⟩
    · rintro ⟨names, hlength, -, h, -⟩
      obtain rfl := List.length_eq_zero_iff.1 (Nat.le_zero.1 hlength)
      exact h
  | succ depth ih =>
    obtain ⟨inside, hinside, hsorted, hmem⟩ := t.exists_subdirectories start
    rw [findBelow, Option.orElse_eq_orElse, Option.orElse_eq_or, hinside, List.findSome?_map]
    constructor
    · intro h
      rcases hhere : t.findIn candidates start with _ | q
      · rw [hhere, Option.none_or] at h
        obtain ⟨before, name, after, rfl, hfound, hbefore⟩ := List.findSome?_eq_some_iff.1 h
        obtain ⟨names, hlength, hreach, hfind, hfirst⟩ := ih.1 hfound
        have hname := (hmem name).1 (List.mem_append_right _ (.head after))
        refine ⟨name :: names, Nat.succ_le_succ hlength, t.reaches_cons.2 ⟨hname, hreach⟩, hfind, ?_⟩
        rintro (_ | ⟨other, others⟩) hlt hlength' hreach'
        · exact hhere
        obtain ⟨hother, hreach'⟩ := t.reaches_cons.1 hreach'
        have hlength' := Nat.le_of_succ_le_succ hlength'
        rw [Path.descend_cons]
        obtain hless | ⟨rfl, hrest⟩ := List.cons_lt_cons_iff.1 hlt
        · have hother' := mem_of_lt_of_sorted hsorted ((hmem other).2 hother) hless
          exact findBelow_eq_none_iff.1 (hbefore other hother') others hlength' hreach'
        · exact hfirst others hrest hlength' hreach'
      · rw [hhere, Option.some_or] at h
        obtain rfl := Option.some.inj h
        exact ⟨[], Nat.zero_le _, t.reaches_nil start, hhere, fun others hlt => absurd hlt (List.not_lt_nil others)⟩
    · rintro ⟨_ | ⟨name, names⟩, hlength, hreach, hfind, hfirst⟩
      · have hhere : t.findIn candidates start = some p := hfind
        rw [hhere, Option.some_or]
      · have hhere : t.findIn candidates start = none :=
          hfirst [] (List.nil_lt_cons name names) (Nat.zero_le _) (t.reaches_nil start)
        obtain ⟨hname, hreach⟩ := t.reaches_cons.1 hreach
        obtain ⟨before, after, rfl, hnot⟩ := List.eq_append_cons_of_mem ((hmem name).2 hname)
        rw [hhere, Option.none_or]
        refine List.findSome?_eq_some_iff.2 ⟨before, name, after, rfl, ?_, fun other hother => ?_⟩
        · refine ih.2 ⟨names, Nat.le_of_succ_le_succ hlength, hreach, hfind, fun others hlt hlength' hreach' => ?_⟩
          exact hfirst (name :: others) (List.cons_lt_cons_iff.2 (.inr ⟨rfl, hlt⟩)) (Nat.succ_le_succ hlength')
            (t.reaches_cons.2 ⟨hname, hreach'⟩)
        · have hless : other < name := lt_of_mem_of_sorted hsorted hother hnot
          refine findBelow_eq_none_iff.2 fun others hlength' hreach' => ?_
          exact hfirst (other :: others) (List.cons_lt_cons_iff.2 (.inl hless)) (Nat.succ_le_succ hlength')
            (t.reaches_cons.2 ⟨(hmem other).1 (List.mem_append_left _ hother), hreach'⟩)

end Find

/-! ## Recursive searches -/

section IsFirst

variable (t : FileTree) (candidates : List String)

/-- A candidate is a file in the directory at a path. -/
def Holds (dir : Path) : Prop := ∃ name ∈ candidates, t.isFile (dir.join ⟨name⟩) = true

theorem findIn_eq_none_iff {dir : Path} : t.findIn candidates dir = none ↔ ¬ t.Holds candidates dir := by
  simp [findIn, Holds]

theorem findIn_eq_some_iff {dir p : Path} : t.findIn candidates dir = some p ↔ ∃ before name after,
    candidates = before ++ name :: after ∧ (∀ other ∈ before, t.isFile (dir.join ⟨other⟩) = false) ∧
      t.isFile (dir.join ⟨name⟩) = true ∧ p = dir.join ⟨name⟩ := by
  rw [findIn, List.find?_map, Option.map_eq_some_iff]
  simp only [List.find?_eq_some_iff_append, Function.comp, Bool.not_eq_true']
  constructor
  · rintro ⟨name, ⟨hfile, before, after, hsplit, hbefore⟩, rfl⟩
    exact ⟨before, name, after, hsplit, hbefore, hfile, rfl⟩
  · rintro ⟨before, name, after, hsplit, hbefore, hfile, rfl⟩
    exact ⟨name, ⟨hfile, before, after, hsplit, hbefore⟩, rfl⟩

/-- Of all directories down to a depth, the one to which the names lead is the first that holds a candidate. -/
structure IsFirst (depth : Nat) (start : Path) (names : List String) : Prop where
  length_le : names.length ≤ depth
  reaches : t.Reaches start names
  holds : t.Holds candidates (start.descend names)
  first : ∀ others < names, others.length ≤ depth → t.Reaches start others →
    ¬ t.Holds candidates (start.descend others)

/-- **A recursive search finds the first candidate in the first directory that holds one**, among the directory where it
starts and those down to 32 below it, each before what lies below it and in the order of their names. What lies below
a directory that cannot be listed does not count, and all else does. -/
theorem findBelow_iff_isFirst (start : Path) :
    (∀ p, t.findBelow candidates maxSearchDepth start = some p ↔ ∃ names, t.IsFirst candidates 32 start names ∧
      ∃ before name after, candidates = before ++ name :: after ∧
        (∀ other ∈ before, t.isFile ((start.descend names).join ⟨other⟩) = false) ∧
        t.isFile ((start.descend names).join ⟨name⟩) = true ∧ p = (start.descend names).join ⟨name⟩) ∧
    (t.findBelow candidates maxSearchDepth start = none ↔
      ∀ names, names.length ≤ 32 → t.Reaches start names → ¬ t.Holds candidates (start.descend names)) := by
  have hdepth : maxSearchDepth = 32 := rfl
  refine ⟨fun p => ?_, ?_⟩
  · simp only [hdepth, findBelow_eq_some_iff, findIn_eq_none_iff, ← findIn_eq_some_iff]
    constructor
    · rintro ⟨names, hlength, hreach, hfind, hfirst⟩
      have hholds : t.Holds candidates (start.descend names) := by
        by_contra hnone
        rw [(t.findIn_eq_none_iff candidates).2 hnone] at hfind
        cases hfind
      exact ⟨names, ⟨hlength, hreach, hholds, hfirst⟩, hfind⟩
    · rintro ⟨names, h, hfind⟩
      exact ⟨names, h.length_le, h.reaches, hfind, h.first⟩
  · simp only [hdepth, findBelow_eq_none_iff, findIn_eq_none_iff]

end IsFirst

/-- What lies below a directory that cannot be listed is passed over. -/
example : ({ root := .directory [("b", .directory [("x", .file .empty)]),
      ("a", .directory [("c", .directory [("x", .file .empty)])])]
             unreadable := [["a"]] } : FileTree).findBelow ["x"] maxSearchDepth ⟨"."⟩ = some ⟨"./b/x"⟩ := by
  cbv

end FileTree

end Dvi
