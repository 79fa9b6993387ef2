import Dvi.File.Path
import Dvi.Search.Class
import Dvi.Table

/-!
# Search configurations

Where files are looked for: directories of each class, roots of trees that hold files of all classes, and
databases of file names.

* `SearchDir`: a directory, searched with all below it if it is written with two slashes at its end;
* `SearchConfig.overrideDirs`, `defaultDirs`: the directories of a class, in the order of the search;
* `SearchConfig.withEnvironment`: **the directories that the environment lists come first**.
-/

namespace Dvi

/-- A directory to be searched, alone or with all below it. -/
structure SearchDir where
  path : Path
  recursive : Bool
  deriving DecidableEq, Repr

namespace SearchDir

/-- The directory that a path writes: two slashes at its end stand for all below it, unless nothing else is
written. The path is a text already, so the rest of it is not made one again. -/
def ofPath (p : Path) : SearchDir :=
  match p.text.toList.reverse with
  | '/' :: '/' :: c :: rest => ⟨⟨String.ofList (c :: rest).reverse⟩, true⟩
  | _ => ⟨p, false⟩

end SearchDir

/-- Where files are looked for. -/
structure SearchConfig where
  /-- roots of trees; in each, a class has a directory of its own -/
  roots : List Path := []
  /-- directories that are searched before all others -/
  overrides : Table ResourceClass (List Path) := {}
  /-- directories that are searched before the trees -/
  defaults : Table ResourceClass (List Path) := {}
  /-- databases, which are searched last -/
  databases : List Path := []
  /-- paths that were found are remembered -/
  cache : Bool := true

namespace SearchConfig

/-- Adds a path to those of a class. -/
def extend (t : Table ResourceClass (List Path)) (c : ResourceClass) (p : Path) :
    Table ResourceClass (List Path) := t.insert c ((t.find? c).getD [] ++ [p])

/-- Adds a tree behind the others. -/
def addRoot (s : SearchConfig) (p : Path) : SearchConfig := { s with roots := s.roots ++ [p] }

/-- Adds a directory to the overrides of a class. -/
def addOverride (s : SearchConfig) (c : ResourceClass) (p : Path) : SearchConfig :=
  { s with overrides := extend s.overrides c p }

/-- Adds a directory to the defaults of a class. -/
def addDefault (s : SearchConfig) (c : ResourceClass) (p : Path) : SearchConfig :=
  { s with defaults := extend s.defaults c p }

/-- Adds a list of files behind the others. -/
def addDatabase (s : SearchConfig) (p : Path) : SearchConfig := { s with databases := s.databases ++ [p] }

/-- Nothing that is found is remembered. -/
def withoutCache (s : SearchConfig) : SearchConfig := { s with cache := false }

/-- The pieces of a text between its colons. -/
def colonPieces : List Char → List (List Char)
  | [] => [[]]
  | ':' :: rest => [] :: colonPieces rest
  | c :: rest =>
    match colonPieces rest with
    | [] => [[c]]
    | p :: ps => (c :: p) :: ps

/-- The directories that the value of an environment variable lists. Empty ones do not count. -/
def listedPaths (value : String) : List Path :=
  ((colonPieces value.toList).filter (· != [])).map fun cs => ⟨String.ofList cs⟩

/-- The configuration with the directories listed for one class before its overrides. -/
def prepend (s : SearchConfig) (c : ResourceClass) (paths : List Path) : SearchConfig :=
  if paths.isEmpty then s
  else { s with overrides := s.overrides.insert c (paths ++ (s.overrides.find? c).getD []) }

/-- The configuration with the directories that the environment lists, before all others. -/
def withEnvironment (s : SearchConfig) (environment : String → Option String) : SearchConfig :=
  ResourceClass.all.foldl
    (fun s c =>
      match environment c.environmentVariable with
      | some value => s.prepend c (listedPaths value)
      | none => s)
    s

/-- The directories that are searched first for a class. -/
def overrideDirs (s : SearchConfig) (c : ResourceClass) : List SearchDir :=
  ((s.overrides.find? c).getD []).map .ofPath

/-- The default directories of a class, and then its directory in each tree. -/
def defaultDirs (s : SearchConfig) (c : ResourceClass) : List SearchDir :=
  ((s.defaults.find? c).getD []).map .ofPath ++
    s.roots.map fun root => ⟨root.join ⟨c.subdirectory⟩, true⟩

end SearchConfig

end Dvi
