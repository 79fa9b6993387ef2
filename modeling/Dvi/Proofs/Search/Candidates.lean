import Dvi.Proofs.Search.Order

/-!
# Names and candidates

A name is looked up as one of its candidates. To look up this candidate instead leads to the same file: the places that
hold none of all candidates do not hold it, and in the place where it was found it still is.

* `Hit`: a candidate and the directory in which it was found; `Resolver.hit?`: what a resolver finds;
* `Selective`: a search in which a candidate that was found is found on its own;
  **`Selective.findSome?`**: places that are asked one after the other form such a search if each of them does;
* `SearchBackend.selective_hit?`: directories and databases do;
* `ResourceClass.candidates_of_mem`: what is tried for a candidate;
* **`Resolver.find_candidate`**: a candidate that was found leads to the same path.
-/

namespace Dvi

/-- A candidate, and the directory in which it was found. -/
structure Hit where
  candidate : String
  directory : Path
  deriving DecidableEq

/-- The candidate in its directory. -/
def Hit.path (h : Hit) : Path := h.directory.join ⟨h.candidate⟩

/-! ## Searches -/

/-- A search among candidates: one that was found is also found on its own, and where none is found, none is found on
its own. -/
structure Selective (search : List String → Option Hit) : Prop where
  found : ∀ names h, search names = some h → h.candidate ∈ names ∧ search [h.candidate] = some h
  missed : ∀ names, search names = none → ∀ name ∈ names, search [name] = none

namespace Selective

theorem ofNames {search : String → Option Hit} (h : ∀ name hit, search name = some hit → hit.candidate = name) :
    Selective fun names => names.findSome? search where
  found names hit hhit := by
    obtain ⟨name, hmem, hname⟩ := List.exists_of_findSome?_eq_some hhit
    obtain rfl := h name hit hname
    exact ⟨hmem, by simp [hname]⟩
  missed names hnone name hmem := by
    simp [List.findSome?_eq_none_iff.1 hnone name hmem]

theorem none : Selective fun _ => .none := ⟨nofun, fun _ _ _ _ => rfl⟩

theorem findSome? {α : Type} {places : List α} {search : α → List String → Option Hit}
    (h : ∀ place ∈ places, Selective (search place)) :
    Selective fun names => places.findSome? fun place => search place names where
  found names hit hhit := by
    obtain ⟨before, place, after, rfl, hplace, hbefore⟩ := List.findSome?_eq_some_iff.1 hhit
    obtain ⟨hmem, halone⟩ := (h place (List.mem_append_right _ (.head after))).found names hit hplace
    refine ⟨hmem, List.findSome?_eq_some_iff.2 ⟨before, place, after, rfl, halone, fun other hother => ?_⟩⟩
    exact (h other (List.mem_append_left _ hother)).missed names (hbefore other hother) _ hmem
  missed names hnone name hmem := by
    refine List.findSome?_eq_none_iff.2 fun place hplace => ?_
    exact (h place hplace).missed names (List.findSome?_eq_none_iff.1 hnone place hplace) name hmem

end Selective

/-! ## Directories and databases -/

namespace FileTree

variable (t : FileTree)

/-- The first candidate that is a file in a directory. -/
def hitIn (dir : Path) (names : List String) : Option Hit :=
  names.findSome? fun name => if t.isFile (dir.join ⟨name⟩) = true then some ⟨name, dir⟩ else none

theorem selective_hitIn (dir : Path) : Selective (t.hitIn dir) := by
  refine Selective.ofNames fun name hit hhit => ?_
  split at hhit
  · rw [← Option.some.inj hhit]
  · cases hhit

theorem findIn_eq_hitIn (dir : Path) (names : List String) : t.findIn names dir = (t.hitIn dir names).map Hit.path := by
  rw [findIn, hitIn, List.map_findSome?, List.find?_map]
  induction names with
  | nil => rfl
  | cons name names ih =>
    rw [List.find?_cons, List.findSome?_cons]
    by_cases hfile : t.isFile (dir.join ⟨name⟩) = true
    · simp [Function.comp, hfile, Hit.path]
    · simpa [Function.comp, hfile] using ih

end FileTree

/-- What is found for a directory that is to be searched. -/
def SearchDir.hit? (t : FileTree) (d : SearchDir) (names : List String) : Option Hit :=
  (d.reached t).findSome? fun dir => t.hitIn dir names

theorem FileTree.search_eq_hit? (t : FileTree) (d : SearchDir) (names : List String) :
    t.search names d = (d.hit? t names).map Hit.path := by
  have hin : t.findIn names = fun dir => (t.hitIn dir names).map Hit.path :=
    funext fun dir => t.findIn_eq_hitIn dir names
  rw [SearchDir.hit?, List.map_findSome?]
  unfold search SearchDir.reached
  split
  · rw [findBelow_eq, hin]
    rfl
  · simp [hin]

/-- What is found in a database: the first candidate that is listed, and the directory that is chosen for it. -/
def FileDatabase.hit? (d : FileDatabase) (c : ResourceClass) (names : List String) : Option Hit :=
  names.findSome? fun name =>
    let dirs := d.directories name
    ((dirs.find? fun dir => dir.contains ⟨c.subdirectory⟩) <|> dirs.head?).map fun dir => ⟨name, dir⟩

namespace SearchBackend

variable (b : SearchBackend) (t : FileTree) (c : ResourceClass)

/-- What is found in the directories or the database of a backend. -/
def hit? (names : List String) : Option Hit :=
  match b with
  | .directories s => (s.dirs c).findSome? fun d => d.hit? t names
  | .database d => d.hit? c names
  | .custom .. => none

theorem selective_hit? : Selective (b.hit? t c) := by
  cases b with
  | directories s => exact .findSome? fun d _ => .findSome? fun dir _ => t.selective_hitIn dir
  | database d =>
    refine .ofNames fun name hit hhit => ?_
    obtain ⟨dir, -, rfl⟩ := Option.map_eq_some_iff.1 hhit
    rfl
  | custom => exact .none

theorem find_eq_hit? (hb : ∀ label find, b ≠ .custom label find) (names : List String) :
    b.find t c names = (b.hit? t c names).map Hit.path := by
  cases b with
  | directories s =>
    rw [find, DirectorySearch.find, hit?, List.map_findSome?]
    exact congrArg (List.findSome? · _) (funext fun d => t.search_eq_hit? d names)
  | database d =>
    rw [find, FileDatabase.find, hit?, FileDatabase.hit?, List.map_findSome?]
    refine congrArg (List.findSome? · _) (funext fun name => ?_)
    rw [Function.comp, Option.map_map]
    rfl
  | custom label find => exact absurd rfl (hb label find)

end SearchBackend

/-! ## Candidates -/

namespace ResourceClass

variable {c : ResourceClass}

theorem hasSuffix_append (name : String) {suffix : String} (h : suffix ∈ c.suffixes) :
    c.hasSuffix (name ++ suffix) = true := by
  have hlower : ∀ s ∈ c.suffixes, (Text.lower s).toList = s.toList := by cases c <;> decide
  rw [hasSuffix, List.any_eq_true]
  refine ⟨suffix, h, List.isSuffixOf_iff_suffix.2 ⟨(Text.lower name).toList, ?_⟩⟩
  rw [← hlower suffix h]
  simp [Text.lower]

/-- For a candidate, nothing else is tried than itself, unless it is the bare name. -/
theorem candidates_of_mem {name candidate : String} (h : candidate ∈ c.candidates name) :
    c.candidates candidate = [candidate] ∨ candidate = name := by
  unfold candidates at h
  split at h
  · exact .inr (List.mem_singleton.1 h)
  · obtain h | h := List.mem_append.1 h
    · obtain ⟨suffix, hsuffix, rfl⟩ := List.mem_map.1 h
      exact .inl (if_pos (hasSuffix_append name hsuffix))
    · exact .inr (List.mem_singleton.1 h)

end ResourceClass

/-! ## Resolvers -/

namespace Resolver

variable (r : Resolver) (t : FileTree) (c : ResourceClass)

/-- What the backends find for a name. -/
def hit? (name : String) : Option Hit := r.backends.findSome? fun b => b.hit? t c (c.candidates name)

variable {r}

theorem search_eq_hit? (hr : r.IsConfigured) (name : String) :
    r.search t name c = (r.hit? t c name).map Hit.path := by
  rw [search, hit?, List.map_findSome?, ← List.head?_filterMap, ← List.head?_filterMap]
  exact congrArg List.head? (List.filterMap_congr fun b hb => b.find_eq_hit? t c (hr b hb) _)

theorem hit?_candidate {name : String} {h : Hit} (hh : r.hit? t c name = some h) :
    h.candidate ∈ c.candidates name ∧ r.hit? t c h.candidate = some h := by
  have hselective : Selective fun names => r.backends.findSome? fun b => b.hit? t c names :=
    .findSome? fun b _ => b.selective_hit? t c
  obtain ⟨hmem, halone⟩ := hselective.found _ _ hh
  refine ⟨hmem, ?_⟩
  obtain hcandidates | hname := ResourceClass.candidates_of_mem hmem
  · rwa [hit?, hcandidates]
  · rwa [hname]

/-- **A candidate that was found leads to the same path as the name.** Every path that directories and databases answer
for a name is that of one candidate, and when this candidate is looked up, be it at first or after the name, the answer
is the same. -/
theorem find_candidate (hr : r.IsConfigured) {name : String} (hname : r.cached? name c = none) {p : Path}
    (hp : (r.find t name c).1 = some p) :
    ∃ h : Hit, r.hit? t c name = some h ∧ h.path = p ∧ h.candidate ∈ c.candidates name ∧
      (r.cached? h.candidate c = none →
        (r.find t h.candidate c).1 = some p ∧ ((r.find t name c).2.find t h.candidate c).1 = some p) := by
  rw [fst_find, hname, Option.none_or, search_eq_hit? t c hr] at hp
  obtain ⟨h, hh, rfl⟩ := Option.map_eq_some_iff.1 hp
  obtain ⟨hmem, halone⟩ := hit?_candidate t c hh
  refine ⟨h, hh, rfl, hmem, fun hcached => ?_⟩
  have hfind : (r.find t h.candidate c).1 = some h.path := by
    rw [fst_find, hcached, Option.none_or, search_eq_hit? t c hr, halone, Option.map_some]
  exact ⟨hfind, (r.fst_find_find t name c h.candidate c).trans hfind⟩

/-- Two directories with virtual fonts. -/
def virtualFonts : FileTree :=
  { root := .directory [("front", .directory [("y.vf", .file .empty)]),
      ("back", .directory [("x.ovf", .file .empty), ("x", .file .empty)])] }

/-- A font with the second suffix is found under its name and under its file name. -/
theorem find_candidate_virtualFonts :
    let config := (({} : SearchConfig).addDefault .virtualFont ⟨"front"⟩).addDefault .virtualFont ⟨"back"⟩
    let r := (ofConfig virtualFonts config).1
    r.IsConfigured ∧ r.cached? "x" .virtualFont = none ∧
      (r.find virtualFonts "x" .virtualFont).1 = some ⟨"back/x.ovf"⟩ ∧ r.cached? "x.ovf" .virtualFont = none ∧
      (r.find virtualFonts "x.ovf" .virtualFont).1 = some ⟨"back/x.ovf"⟩ := by
  intro config r
  have hr : r.IsConfigured := isConfigured_ofConfig virtualFonts config
  have hfind : (r.find virtualFonts "x" .virtualFont).1 = some ⟨"back/x.ovf"⟩ := by decide +kernel
  have hhit : r.hit? virtualFonts .virtualFont "x" = some ⟨"x.ovf", ⟨"back"⟩⟩ := by decide +kernel
  obtain ⟨h, hh, -, -, hcandidate⟩ := find_candidate virtualFonts .virtualFont hr rfl hfind
  obtain rfl := Option.some.inj (hhit.symm.trans hh)
  exact ⟨hr, rfl, hfind, rfl, (hcandidate rfl).1⟩

end Resolver

end Dvi
