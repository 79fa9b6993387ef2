import Dvi.Font.Library
import Dvi.Search.ConfigText
import Dvi.Tool.Arguments
import Dvi.Tool.Failure

/-!
# Setting up a search

What the tools have in common: where they look for files. A configuration is read from a file, the
environment comes before it, and the command line adds to it.

* `Surroundings`: what a run finds when it begins;
* `SearchSettings.forms`: the options;
* `configDirectory`: where the configuration is kept, by the environment;
* `SearchSettings.config`, `SearchSettings.library`: the configuration, and the font library over it.
-/

namespace Dvi.Tool

/-- The workers of a machine, which take steps side by side. -/
structure Workers where
  /-- how many there are, if the machine says -/
  available : Option Nat
  /-- starts so many of them, or says why it cannot -/
  start : Nat → Except String Unit

/-- Workers of whom any number can be started. -/
def Workers.unlimited : Workers where
  available := none
  start _ := .ok ()

/-- The surroundings of a tool: the variables of the environment, the files, and the workers. -/
structure Surroundings where
  environment : String → Option String
  files : FileTree
  workers : Workers

/-- What the command line says of the search for files. -/
structure SearchSettings where
  config : Option Path := none
  roots : List Path := []
  metricsDirs : List Path := []
  mapDirs : List Path := []
  useEnvironment : Bool := true
  cache : Bool := true

/-- A path, which may not be empty. -/
def pathOfText (s : String) : Option Path := if s.isEmpty then none else some ⟨s⟩

namespace SearchSettings

/-- The options of the search, for settings of which it is a part. -/
def forms {σ : Type} (modify : (SearchSettings → SearchSettings) → σ → σ) : List (OptionForm σ) :=
  let path (change : Path → SearchSettings → SearchSettings) (value : String) (s : σ) : Option σ :=
    (pathOfText value).map fun p => modify (change p) s
  [{ name := "config", value := "FILE"
     action := .single (path fun p s => { s with config := some p })
     purpose := "Search configuration file (default: search.json in the config directory)" },
   { name := "texmf", value := "DIR"
     action := .repeated (path fun p s => { s with roots := s.roots ++ [p] })
     purpose := "Add a TEXMF root; may be repeated" },
   { name := "tfm-dir", value := "DIR"
     action := .repeated (path fun p s => { s with metricsDirs := s.metricsDirs ++ [p] })
     purpose := "Search this directory for TFM files first; append // to recurse" },
   { name := "map-dir", value := "DIR"
     action := .repeated (path fun p s => { s with mapDirs := s.mapDirs ++ [p] })
     purpose := "Search this directory for font map files first; append // to recurse" },
   { name := "no-env"
     action := .flag (modify fun s => { s with useEnvironment := false })
     purpose := "Ignore TFMFONTS, TEXFONTMAPS and the other search path variables" },
   { name := "disable-caching", letter := some 'C'
     action := .flag (modify fun s => { s with cache := false })
     purpose := "Disable caching of resolved paths" }]

end SearchSettings

/-- The options that every tool has at the end. -/
def closingForms {σ : Type} : List (OptionForm σ) :=
  [{ name := "help", letter := some 'h', action := .help, purpose := "Print help" },
   { name := "version", letter := some 'V', action := .version, purpose := "Print version" }]

/-! ## The configuration -/

/-- The directory that holds the configuration. Empty variables count as unset. -/
def configDirectory (environment : String → Option String) : Option Path :=
  let directory (name : String) : Option Path := (environment name).bind pathOfText
  match directory "DVIREAD_CONFIG_DIR", directory "XDG_CONFIG_HOME", directory "HOME" with
  | some dir, _, _ => some dir
  | none, some dir, _ => some (dir.join ⟨"dviread"⟩)
  | none, none, some home => some ((home.join ⟨".config"⟩).join ⟨"dviread"⟩)
  | none, none, none => none

/-- The name of the configuration in its directory. -/
def configFile : Path := ⟨"search.json"⟩

namespace SearchSettings

/-- The file that the configuration is read from: the one asked for, or else the one in the configuration
directory, if it is there. -/
def configPath (s : SearchSettings) (around : Surroundings) : Option Path :=
  match s.config with
  | some p => some p
  | none => ((configDirectory around.environment).map (·.join configFile)).filter around.files.isFile

/-- Reads a configuration from a file. -/
def readConfig (t : FileTree) (p : Path) : Except Error SearchConfig := do
  match t.read p with
  | .error e => throw (.file e)
  | .ok data =>
    let some text := Utf8.decode? data | throw (.file .notUtf8)
    let some config := SearchConfig.ofText? text | throw .configuration
    return config

/-- The configuration with what the command line adds. -/
def extend (s : SearchSettings) (c : SearchConfig) : SearchConfig :=
  let c := s.roots.foldl (·.addRoot ·) c
  let c := s.metricsDirs.foldl (·.addOverride .tfm ·) c
  let c := s.mapDirs.foldl (·.addOverride .fontMap ·) c
  if s.cache then c else c.withoutCache

/-- The configuration of the search: that of the file, the environment, and the command line. -/
def configuration (s : SearchSettings) (around : Surroundings) : Except Failure SearchConfig := do
  let c ← match s.configPath around with
    | none => pure {}
    | some p =>
      match readConfig around.files p with
      | .ok c => pure c
      | .error e => throw ((Failure.ofError e).during ("reading search configuration " ++ p.text))
  return s.extend (if s.useEnvironment then c.withEnvironment around.environment else c)

/-- A map with the records of named maps added. -/
def loadMaps (t : FileTree) : List String → FontMap × Resolver → Except Failure (FontMap × Resolver)
  | [], r => .ok r
  | name :: rest, (m, resolver) =>
    let (loading, resolver) := FontMap.loadNamed resolver t name .replace
    match loading m with
    | .ok _ m => loadMaps t rest (m, resolver)
    | .error e _ => .error ((Failure.ofError e).during ("loading font map " ++ name))

/-- The resolver for the settings. Its warnings are not part of any outcome. -/
def resolver (s : SearchSettings) (around : Surroundings) : Except Failure Resolver := do
  return (Resolver.ofConfig around.files (← s.configuration around)).1

/-- A font library with the named maps, or without map if none is named. -/
def library (r : Resolver) (t : FileTree) (maps : List String) : Except Failure FontLibrary := do
  if maps.isEmpty then return { files := t, resolver := r }
  let (map, resolver) ← loadMaps t maps ({}, r)
  return { files := t, resolver, map := some map }

end SearchSettings

end Dvi.Tool
