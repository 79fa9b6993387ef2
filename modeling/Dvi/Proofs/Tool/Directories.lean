import Dvi.Proofs.Search.Order
import Dvi.Tool.FontReporter

/-!
# Directories on the command line

A directory that the command line gives for a class is added behind the overrides there are: those of the
configuration file, and the directories that the environment lists in front of them.

* `SearchSettings.fileConfiguration`: the configuration before the environment and the command line add to it;
* `SearchSettings.dirs`: the directories that the command line gives for a class;
* `SearchSettings.places_extend`: the places of a class with those of the command line among them;
* **`SearchSettings.find_eq_of_fileConfiguration`**: what a tool finds comes from the environment or an override if
  there is a hit, else from the first directory of the command line with a hit, else from elsewhere.
-/

namespace Dvi.Tool.SearchSettings

open SearchConfig Resolver

/-- The configuration that is read from a file; without file, the empty one. -/
def fileConfiguration (s : SearchSettings) (around : Surroundings) : Except Failure SearchConfig :=
  match s.configPath around with
  | none => pure {}
  | some p =>
    match readConfig around.files p with
    | .ok c => pure c
    | .error e => throw ((Failure.ofError e).during ("reading search configuration " ++ p.text))

/-- The environment, if it counts. -/
def environment (s : SearchSettings) (around : Surroundings) : String → Option String :=
  if s.useEnvironment then around.environment else noEnvironment

/-- The directories that the command line gives for a class. -/
def dirs (s : SearchSettings) : ResourceClass → List Path
  | .tfm => s.metricsDirs
  | .fontMap => s.mapDirs
  | _ => []

theorem configuration_eq (s : SearchSettings) (around : Surroundings) : s.configuration around =
    (s.fileConfiguration around).map fun c => s.extend (c.withEnvironment (s.environment around)) := by
  unfold configuration fileConfiguration environment
  cases s.configPath around with
  | none => cases s.useEnvironment <;> rfl
  | some p =>
    dsimp only
    cases readConfig around.files p <;> cases s.useEnvironment <;> rfl

/-! ## What the command line adds -/

section Extend

variable (c : SearchConfig)

theorem foldl_addRoot (ps : List Path) : ps.foldl (·.addRoot ·) c = { c with roots := c.roots ++ ps } := by
  induction ps generalizing c with
  | nil => simp
  | cons p ps ih =>
    rw [List.foldl_cons, ih]
    simp [addRoot]

theorem exists_overrides_foldl_addOverride (cls : ResourceClass) (ps : List Path) :
    ∃ overrides, ps.foldl (·.addOverride cls ·) c = { c with overrides } := by
  induction ps generalizing c with
  | nil => exact ⟨_, rfl⟩
  | cons p ps ih =>
    obtain ⟨overrides, h⟩ := ih (c.addOverride cls p)
    exact ⟨overrides, h⟩

theorem pathsOf_foldl_addOverride (key cls : ResourceClass) (ps : List Path) :
    pathsOf (ps.foldl (·.addOverride key ·) c).overrides cls =
      pathsOf c.overrides cls ++ if cls = key then ps else [] := by
  induction ps generalizing c with
  | nil => simp
  | cons p ps ih =>
    rw [List.foldl_cons, ih, addOverride, SearchConfig.extend, pathsOf_insert]
    by_cases hcls : cls = key
    · subst hcls
      simp [pathsOf]
    · simp [hcls]

theorem pathsOf_extend (s : SearchSettings) (cls : ResourceClass) :
    pathsOf (s.extend c).overrides cls = pathsOf c.overrides cls ++ s.dirs cls := by
  have hextend : (s.extend c).overrides = (s.mapDirs.foldl (·.addOverride .fontMap ·)
      (s.metricsDirs.foldl (·.addOverride .tfm ·) (s.roots.foldl (·.addRoot ·) c))).overrides := by
    unfold extend
    cases s.cache <;> rfl
  rw [hextend, pathsOf_foldl_addOverride, pathsOf_foldl_addOverride, foldl_addRoot]
  cases cls <;> simp [dirs]

theorem exists_overrides_extend (s : SearchSettings) :
    ∃ overrides cache, s.extend c = { c with roots := c.roots ++ s.roots, overrides, cache } := by
  obtain ⟨_, htfm⟩ := exists_overrides_foldl_addOverride { c with roots := c.roots ++ s.roots } .tfm s.metricsDirs
  obtain ⟨overrides, hmap⟩ := exists_overrides_foldl_addOverride _ .fontMap s.mapDirs
  unfold extend
  dsimp only
  rw [foldl_addRoot, htfm, hmap]
  cases s.cache
  · exact ⟨overrides, false, rfl⟩
  · exact ⟨overrides, c.cache, rfl⟩

end Extend

/-- The places of directories. -/
def dirPlaces (ps : List Path) : List SearchPlace := (ps.map SearchDir.ofPath).map .directory

/-- **The directories of the command line stand behind the environment and the overrides of the file**, and before
all other places. -/
theorem places_extend (s : SearchSettings) (c : SearchConfig) (environment : String → Option String)
    (cls : ResourceClass) : (s.extend (c.withEnvironment environment)).places noEnvironment cls =
      dirPlaces (environmentPaths environment cls ++ pathsOf c.overrides cls) ++
        (dirPlaces (s.dirs cls) ++ { c with roots := c.roots ++ s.roots }.laterPlaces cls) := by
  have hlater : (s.extend (c.withEnvironment environment)).laterPlaces cls =
      { c with roots := c.roots ++ s.roots }.laterPlaces cls := by
    obtain ⟨_, henvironment⟩ := c.exists_overrides_withEnvironment environment
    obtain ⟨_, _, hextend⟩ := exists_overrides_extend (c.withEnvironment environment) s
    rw [hextend, henvironment]
    rfl
  have hnone : environmentPaths noEnvironment cls = [] := rfl
  rw [places, hlater, pathsOf_extend, pathsOf_withEnvironment, hnone]
  simp [dirPlaces]

/-! ## What the tools find -/

theorem find_uses_ofConfig (config : SearchConfig) (files : FileTree) {us : List Use}
    (hus : ∀ u ∈ us, u.asks?.isSome = true) (name : String) (cls : ResourceClass) :
    (((Session.start files files config).uses us).use (.find name cls)).1 =
      .found (foundIn files files cls name (config.places noEnvironment cls)) := by
  let s := Session.start files files config
  have hscene : us.foldl Scene.after s.scene = s.scene := by
    induction us with
    | nil => rfl
    | cons u us ih =>
      have hu := hus u (.head us)
      cases u with
      | find | resolve => exact ih fun v hv => hus v (.tail _ hv)
      | push | change => cases hu
  have hchange : ∀ t, .change t ∉ us := fun t ht => by cases hus _ ht
  have hempty := Session.remembered_start files files config
  have hasks : (Use.find name cls).asks? = some (cls, name) := rfl
  have hanswer : ((s.uses us).use (.find name cls)).1 = .found (s.scene.search (cls, name)) := by
    rcases hs : s.remembers with _ | _
    · rw [Session.answer_uses_of_not_remembers hs us hasks, hscene]
      rfl
    · rw [Session.answer_uses hs hempty us hasks, firstHit?_concat, if_pos hasks, firstHit?_or_search _ _ hchange,
        hscene]
      rfl
  refine hanswer.trans (congrArg Answer.found ?_)
  exact search_ofConfig files files config name cls

/-- **What a tool finds comes from the environment or an override of the configuration file if there is a hit, else from
the first directory of the command line in which there is one**, and only else from defaults, trees and databases. -/
theorem find_eq_of_fileConfiguration (s : SearchSettings) (around : Surroundings) {c : SearchConfig}
    (hc : s.fileConfiguration around = .ok c) : ∃ r, s.resolver around = .ok r ∧
      ∀ us : List Use, (∀ u ∈ us, u.asks?.isSome = true) → ∀ name cls,
        let found := foundIn around.files around.files cls name
        (((Session.mk around.files r).uses us).use (.find name cls)).1 = .found
          ((found (dirPlaces (environmentPaths (s.environment around) cls ++ pathsOf c.overrides cls))).or
            ((found (dirPlaces (s.dirs cls))).or
              (found ({ c with roots := c.roots ++ s.roots }.laterPlaces cls)))) := by
  have hconfig : s.configuration around = .ok (s.extend (c.withEnvironment (s.environment around))) := by
    rw [configuration_eq, hc]
    rfl
  refine ⟨_, by rw [resolver, hconfig]; rfl, fun us hus name cls => ?_⟩
  have hfind := find_uses_ofConfig (s.extend (c.withEnvironment (s.environment around))) around.files hus name cls
  refine hfind.trans ?_
  rw [foundIn, places_extend, List.findSome?_append, List.findSome?_append]

/-- Two directories with metrics of the same name. -/
def twoMetrics : FileTree :=
  { root := .directory [("front", .directory [("x.tfm", .file .empty)]),
      ("back", .directory [("x.tfm", .file .empty)])] }

/-- The environment lists the directory in front. -/
def aroundTwoMetrics : Surroundings := { environment := frontFirst, files := twoMetrics, workers := .unlimited }

/-- The metrics are found where the environment says, and where the command line says if the environment does not
count. -/
theorem find_eq_of_fileConfiguration_twoMetrics :
    let s : SearchSettings := { metricsDirs := [⟨"back"⟩] }
    let alone : SearchSettings := { metricsDirs := [⟨"back"⟩], useEnvironment := false }
    (s.fileConfiguration aroundTwoMetrics).isOk = true ∧ (alone.fileConfiguration aroundTwoMetrics).isOk = true ∧
    (∃ r, s.resolver aroundTwoMetrics = .ok r ∧
      (((Session.mk twoMetrics r).uses []).use (.find "x" .tfm)).1 = .found (some ⟨"front/x.tfm"⟩)) ∧
    ∃ r, alone.resolver aroundTwoMetrics = .ok r ∧
      (((Session.mk twoMetrics r).uses []).use (.find "x" .tfm)).1 = .found (some ⟨"back/x.tfm"⟩) := by
  intro s alone
  have hs : s.fileConfiguration aroundTwoMetrics = .ok {} := rfl
  have halone : alone.fileConfiguration aroundTwoMetrics = .ok {} := rfl
  obtain ⟨r, hr, hfind⟩ := find_eq_of_fileConfiguration s aroundTwoMetrics hs
  obtain ⟨r', hr', hfind'⟩ := find_eq_of_fileConfiguration alone aroundTwoMetrics halone
  refine ⟨rfl, rfl, ⟨r, hr, (hfind [] nofun "x" .tfm).trans ?_⟩, r', hr', (hfind' [] nofun "x" .tfm).trans ?_⟩
  · exact congrArg Answer.found (by decide +kernel)
  · exact congrArg Answer.found (by decide +kernel)

/-- **A directory of the command line is not the first to be searched**: there are the metrics in it, and others are
found. -/
theorem find_outside_commandLine_twoMetrics :
    twoMetrics.isFile ⟨"back/x.tfm"⟩ = true ∧
    (FontReporter.run ["--find", "tfm", "--tfm-dir", "back", "x"] aroundTwoMetrics).output = "front/x.tfm\n" := by
  decide +kernel

end Dvi.Tool.SearchSettings
