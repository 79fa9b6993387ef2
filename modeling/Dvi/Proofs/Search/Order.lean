import Dvi.Proofs.Search.Remembered

/-!
# The order of a search

All places where files of a class are looked for stand in one list: the directories that the environment lists, those
configured before the others and those configured besides, the trees, the databases, and what was added since. What a
name leads to is the first hit of this list.

* `SearchDir.reached`, `SearchDir.tries`: the directories that are visited because of one, and the paths tried in them;
  `FileTree.search_eq`: the first of these paths is found at which there is a file;
* `SearchPlace.hit`: what is found in one place;
* `SearchConfig.places`: the list of a configuration in an environment;
  `SearchConfig.places_withEnvironment`: the environment does nothing but stand in front;
* **`Resolver.search_ofConfig`**: a resolver finds the first hit of its configuration;
* **`Resolver.find_eq_first_hit`**: so it does with backends added later, whatever it was asked before.
-/

namespace Dvi

/-! ## Directories -/

theorem findSome?_flatMap {α β γ : Type} (f : α → List β) (g : β → Option γ) (as : List α) :
    (as.flatMap f).findSome? g = as.findSome? fun a => (f a).findSome? g := by
  simp only [← List.head?_filterMap, List.filterMap_flatMap, List.head?_flatMap]

namespace FileTree

variable (t : FileTree)

/-- A directory and those below it down to a depth, each before what lies below it. -/
def reached : (depth : Nat) → Path → List Path
  | 0, dir => [dir]
  | depth + 1, dir => dir :: (t.subdirectories dir).flatMap (reached depth)

theorem findBelow_eq (names : List String) (depth : Nat) (dir : Path) :
    t.findBelow names depth dir = (t.reached depth dir).findSome? (t.findIn names) := by
  induction depth generalizing dir with
  | zero => simp [findBelow, reached]
  | succ depth ih =>
    have hbelow : t.findBelow names depth = fun dir => (t.reached depth dir).findSome? (t.findIn names) := by
      funext dir
      exact ih dir
    rw [findBelow, reached, List.findSome?_cons, hbelow, findSome?_flatMap]
    cases t.findIn names dir <;> rfl

end FileTree

namespace SearchDir

/-- The directories visited for one that is to be searched. -/
def reached (d : SearchDir) (t : FileTree) : List Path :=
  if d.recursive then t.reached maxSearchDepth d.path else [d.path]

/-- The paths tried for one directory: in each one visited, all names in turn. -/
def tries (d : SearchDir) (t : FileTree) (names : List String) : List Path :=
  (d.reached t).flatMap fun dir => names.map fun name => dir.join ⟨name⟩

end SearchDir

theorem FileTree.search_eq (t : FileTree) (names : List String) (d : SearchDir) :
    t.search names d = (d.tries t names).find? t.isFile := by
  rw [SearchDir.tries, List.find?_flatMap]
  unfold search SearchDir.reached
  split
  · exact t.findBelow_eq names maxSearchDepth d.path
  · simp [findIn]

/-! ## Places -/

/-- Where files are looked for. -/
inductive SearchPlace where
  | directory (d : SearchDir)
  /-- a database of file names, which lies in a file -/
  | database (p : Path)
  | backend (b : SearchBackend)

/-- What is found in a place for a class, given the names to be tried. Databases were read from the files there were
when the search was set up, and one that could not be read holds nothing. -/
def SearchPlace.hit (made now : FileTree) (c : ResourceClass) (names : List String) : SearchPlace → Option Path
  | .directory d => (d.tries now names).find? now.isFile
  | .database p =>
    match FileDatabase.load made p with
    | .ok d => d.find c names
    | .error _ => none
  | .backend b => b.find now c names

namespace SearchConfig

/-- The paths listed for a class. -/
def pathsOf (t : Table ResourceClass (List Path)) (c : ResourceClass) : List Path := (t.find? c).getD []

/-- The directories that the environment lists for a class. -/
def environmentPaths (environment : String → Option String) (c : ResourceClass) : List Path :=
  ((environment c.environmentVariable).map listedPaths).getD []

/-- The directories of a class at the roots of trees, searched with all below them. -/
def treeDirs (s : SearchConfig) (c : ResourceClass) : List SearchDir :=
  s.roots.map fun root => ⟨root.join ⟨c.subdirectory⟩, true⟩

/-- The places of a class that come after the overrides. -/
def laterPlaces (s : SearchConfig) (c : ResourceClass) : List SearchPlace :=
  ((pathsOf s.defaults c).map SearchDir.ofPath ++ s.treeDirs c).map .directory ++ s.databases.map .database

/-- All places of a class in an environment, in the order of the search. -/
def places (s : SearchConfig) (environment : String → Option String) (c : ResourceClass) : List SearchPlace :=
  ((environmentPaths environment c).map SearchDir.ofPath ++
    (pathsOf s.overrides c).map SearchDir.ofPath).map .directory ++ s.laterPlaces c

/-- An environment without variables. -/
def noEnvironment : String → Option String := fun _ => none

/-! ### The environment -/

section Environment

variable (s : SearchConfig) (environment : String → Option String)

theorem pathsOf_insert (t : Table ResourceClass (List Path)) (key c : ResourceClass) (ps : List Path) :
    pathsOf (t.insert key ps) c = if c = key then ps else pathsOf t c := by
  rw [pathsOf, Table.find?_insert]
  split <;> rfl

theorem pathsOf_prepend (key c : ResourceClass) (ps : List Path) :
    pathsOf (s.prepend key ps).overrides c = (if c = key then ps else []) ++ pathsOf s.overrides c := by
  unfold prepend
  split
  · rename_i hps
    rw [List.isEmpty_iff.1 hps, ite_self, List.nil_append]
  · rw [pathsOf_insert]
    split
    · rename_i hc
      rw [hc]
      rfl
    · rfl

theorem withEnvironment_eq : s.withEnvironment environment =
    ResourceClass.all.foldl (fun s c => s.prepend c (environmentPaths environment c)) s := by
  unfold withEnvironment environmentPaths
  congr 1
  funext s c
  cases environment c.environmentVariable <;> rfl

theorem pathsOf_foldl_prepend (c : ResourceClass) {cs : List ResourceClass} (hcs : cs.Nodup) :
    pathsOf (cs.foldl (fun s c => s.prepend c (environmentPaths environment c)) s).overrides c =
      (if c ∈ cs then environmentPaths environment c else []) ++ pathsOf s.overrides c := by
  induction cs generalizing s with
  | nil => simp
  | cons key cs ih =>
    obtain ⟨hkey, hcs⟩ := List.nodup_cons.1 hcs
    rw [List.foldl_cons, ih _ hcs, pathsOf_prepend]
    by_cases hc : c = key
    · subst hc
      simp [hkey]
    · simp [hc]

theorem pathsOf_withEnvironment (c : ResourceClass) : pathsOf (s.withEnvironment environment).overrides c =
    environmentPaths environment c ++ pathsOf s.overrides c := by
  have hnodup : ResourceClass.all.Nodup := by decide
  rw [withEnvironment_eq, pathsOf_foldl_prepend s environment c hnodup, if_pos (ResourceClass.mem_all c)]

theorem exists_overrides_withEnvironment : ∃ overrides, s.withEnvironment environment = { s with overrides } := by
  rw [withEnvironment_eq]
  induction ResourceClass.all generalizing s with
  | nil => exact ⟨_, rfl⟩
  | cons c cs ih =>
    obtain ⟨overrides, h⟩ := ih (s.prepend c (environmentPaths environment c))
    refine ⟨overrides, ?_⟩
    rw [List.foldl_cons, h, prepend]
    split <;> rfl

/-- **The places in an environment are those of the configuration that the environment was put into.** -/
theorem places_withEnvironment (c : ResourceClass) :
    (s.withEnvironment environment).places noEnvironment c = s.places environment c := by
  have hlater : (s.withEnvironment environment).laterPlaces c = s.laterPlaces c := by
    obtain ⟨overrides, h⟩ := s.exists_overrides_withEnvironment environment
    rw [h]
    rfl
  have hnone : environmentPaths noEnvironment c = [] := rfl
  rw [places, places, hlater, pathsOf_withEnvironment, hnone, List.map_nil, List.nil_append, List.map_append]

end Environment

/-! ### Other classes -/

theorem environmentVariable_inj {c c' : ResourceClass} (h : c.environmentVariable = c'.environmentVariable) :
    c = c' := by
  revert h
  cases c <;> cases c' <;> decide

/-- An environment in which a variable has another value, or none. -/
def setVariable (environment : String → Option String) (name : String) (value : Option String) :
    String → Option String :=
  fun v => if v = name then value else environment v

/-- What is listed for one class, wherever it is, is no place of another one. -/
theorem places_of_ne (s : SearchConfig) (environment : String → Option String) {c c' : ResourceClass} (hc : c' ≠ c) :
    (∀ p, (s.addOverride c' p).places environment c = s.places environment c) ∧
    (∀ p, (s.addDefault c' p).places environment c = s.places environment c) ∧
    ∀ value, s.places (setVariable environment c'.environmentVariable value) c = s.places environment c := by
  refine ⟨fun p => ?_, fun p => ?_, fun value => ?_⟩
  · simp only [places, laterPlaces, treeDirs, addOverride, extend, pathsOf_insert, if_neg hc.symm]
  · simp only [places, laterPlaces, treeDirs, addDefault, extend, pathsOf_insert, if_neg hc.symm]
  · have hvariable : c.environmentVariable ≠ c'.environmentVariable := fun h => hc (environmentVariable_inj h).symm
    simp only [places, environmentPaths, setVariable, if_neg hvariable]

end SearchConfig

/-! ## Resolvers -/

namespace Resolver

open SearchConfig

/-- What the places of a list find, asked one after the other. -/
abbrev foundIn (made now : FileTree) (c : ResourceClass) (name : String) (places : List SearchPlace) : Option Path :=
  places.findSome? (SearchPlace.hit made now c (c.candidates name))

section Backends

variable (made now : FileTree) (c : ResourceClass) (names : List String)

theorem find_directories (s : DirectorySearch) : (SearchBackend.directories s).find now c names =
    ((s.dirs c).map SearchPlace.directory).findSome? (SearchPlace.hit made now c names) := by
  rw [List.findSome?_map]
  simp only [SearchBackend.find, DirectorySearch.find]
  congr 1
  funext d
  exact now.search_eq names d

/-- A layer without directories finds nothing, so it does not matter that it is left out. -/
theorem findSome?_layers (layers : List DirectorySearch) :
    ((layers.filter (!·.isEmpty)).map SearchBackend.directories).findSome? (·.find now c names) =
      ((layers.flatMap fun s => s.dirs c).map SearchPlace.directory).findSome? (SearchPlace.hit made now c names) := by
  induction layers with
  | nil => rfl
  | cons s layers ih =>
    rw [List.flatMap_cons, List.map_append, List.findSome?_append, ← ih, ← find_directories]
    by_cases hs : s.isEmpty = true
    · have hdirs : s.dirs c = [] :=
        List.isEmpty_iff.1 (List.all_eq_true.1 hs c (ResourceClass.mem_all c))
      rw [List.filter_cons_of_neg (by simpa using hs)]
      simp [SearchBackend.find, DirectorySearch.find, hdirs]
    · rw [List.filter_cons_of_pos (by simpa using hs), List.map_cons, List.findSome?_cons]
      cases (SearchBackend.directories s).find now c names <;> rfl

theorem findSome?_databases (ps : List Path) :
    ((ps.map (loadDatabase made)).flatMap Prod.fst).findSome? (·.find now c names) =
      (ps.map SearchPlace.database).findSome? (SearchPlace.hit made now c names) := by
  rw [List.flatMap_map, findSome?_flatMap, List.findSome?_map]
  congr 1
  funext p
  simp only [Function.comp, loadDatabase, SearchPlace.hit]
  cases FileDatabase.load made p with
  | ok d => simp [SearchBackend.find]
  | error e => rfl

end Backends

/-- **A resolver finds the first hit of the places of its configuration.** -/
theorem search_ofConfig (made now : FileTree) (config : SearchConfig) (name : String) (c : ResourceClass) :
    (ofConfig made config).1.search now name c = foundIn made now c name (config.places noEnvironment c) := by
  have hdirs : [(DirectorySearch.mk "overrides" config.overrideDirs), ⟨"defaults", config.defaultDirs⟩].flatMap
      (fun s => s.dirs c) = (pathsOf config.overrides c).map SearchDir.ofPath ++
        ((pathsOf config.defaults c).map SearchDir.ofPath ++ config.treeDirs c) := by
    simp [overrideDirs, defaultDirs, pathsOf, treeDirs]
  have hplaces : config.places noEnvironment c = ((pathsOf config.overrides c).map SearchDir.ofPath ++
      ((pathsOf config.defaults c).map SearchDir.ofPath ++ config.treeDirs c)).map .directory ++
        config.databases.map .database := by
    simp [places, laterPlaces, environmentPaths, noEnvironment]
  rw [search, ofConfig, List.findSome?_append, findSome?_layers made, findSome?_databases made, hdirs, foundIn, hplaces,
    List.findSome?_append]

namespace Session

/-- The backends added in the course of a history. -/
def pushed (us : List Use) : List SearchBackend :=
  us.filterMap fun
    | .push b => some b
    | _ => none

theorem backends_uses (s : Session) (us : List Use) :
    (s.uses us).resolver.backends = s.scene.backends ++ pushed us := by
  have hscene : ∀ w : Scene, (us.foldl Scene.after w).backends = w.backends ++ pushed us := by
    induction us with
    | nil => simp [pushed]
    | cons u us ih =>
      intro w
      rw [List.foldl_cons, ih]
      cases u with
      | push b => simp [Scene.after, pushed]
      | find | resolve | change => rfl
  rw [← hscene s.scene, ← scene_uses]
  rfl

end Session

/-- **A name that is not remembered leads to the first hit of one list of places**: the directories that the environment
lists for its class, the overrides and the defaults of the class, its directory in each tree, the databases, and the
backends added since. It makes no difference what was asked before, how the files were then, or what is listed for
other classes. -/
theorem find_eq_first_hit (config : SearchConfig) (environment : String → Option String) (made now : FileTree)
    (us : List Use) (name : String) (c : ResourceClass)
    (huncached : ((Session.start made now (config.withEnvironment environment)).uses us).remembered (c, name) = none) :
    let s := (Session.start made now (config.withEnvironment environment)).uses us
    (s.use (.find name c)).1 = .found (foundIn made s.files c name
      (config.places environment c ++ (Session.pushed us).map .backend)) ∧
    ∀ c' ≠ c,
      (∀ p, (config.addOverride c' p).places environment c = config.places environment c) ∧
      (∀ p, (config.addDefault c' p).places environment c = config.places environment c) ∧
      ∀ value, config.places (setVariable environment c'.environmentVariable value) c =
        config.places environment c := by
  intro s
  refine ⟨?_, fun c' hc => config.places_of_ne environment hc⟩
  have hanswer : (s.use (.find name c)).1 = .found ((s.remembered (c, name)).or (s.scene.search (c, name))) :=
    s.answer_use rfl
  rw [hanswer, huncached, Option.none_or, foundIn, List.findSome?_append, ← places_withEnvironment, ← foundIn,
    ← search_ofConfig, Scene.search, Session.scene, Session.backends_uses, List.findSome?_append, List.findSome?_map]
  rfl

/-- A directory in front that holds the bare name, one behind it that holds the metrics file, and the same metrics file
in a directory for virtual fonts. -/
def layeredTree : FileTree :=
  { root := .directory [("front", .directory [("x", .file .empty)]), ("back", .directory [("x.tfm", .file .empty)]),
      ("virtual", .directory [("x.tfm", .file .empty)])] }

/-- A default for metrics files, and an override for another class. -/
def layeredConfig : SearchConfig :=
  (({} : SearchConfig).addDefault .tfm ⟨"back"⟩).addOverride .virtualFont ⟨"virtual"⟩

/-- The directory in front is the one that the environment lists, between colons. -/
def frontFirst : String → Option String := setVariable noEnvironment "TFMFONTS" (some ":front:")

/-- The bare name in front is found, also after other names; without the environment, the metrics file behind it. -/
theorem find_eq_first_hit_layered :
    let s := (Session.start layeredTree layeredTree (layeredConfig.withEnvironment frontFirst)).uses [.find "y" .tfm]
    let s' := Session.start layeredTree layeredTree (layeredConfig.withEnvironment noEnvironment)
    s.remembered (.tfm, "x") = none ∧ (s.use (.find "x" .tfm)).1 = .found (some ⟨"front/x"⟩) ∧
    s'.remembered (.tfm, "x") = none ∧ (s'.use (.find "x" .tfm)).1 = .found (some ⟨"back/x.tfm"⟩) := by
  intro s s'
  have hs : s.remembered (.tfm, "x") = none := by decide +kernel
  have hs' : s'.remembered (.tfm, "x") = none := rfl
  have h := find_eq_first_hit layeredConfig frontFirst layeredTree layeredTree [.find "y" .tfm] "x" .tfm hs
  have h' := find_eq_first_hit layeredConfig noEnvironment layeredTree layeredTree [] "x" .tfm hs'
  refine ⟨hs, h.1.trans (congrArg Answer.found ?_), hs', h'.1.trans (congrArg Answer.found ?_)⟩
  · decide +kernel
  · decide +kernel

end Resolver

end Dvi
