import Dvi.Error
import Dvi.Search.Database
import Dvi.Search.Directory
import Dvi.Text.Quoted
import Dvi.Warning

/-!
# Finding files

A resolver asks its backends one after the other and takes the first answer: the override directories, the
default directories, the databases, and any backends added later. What was found may be remembered; what was
not found is looked for again.

* `Resolver.search`: the first answer of the backends;
* `Resolver.find`: the same, **remembered from the first success on**;
* `Resolver.summary`: the labels of the backends and the number of paths remembered.
-/

namespace Dvi

/-- Something that can locate files. -/
inductive SearchBackend where
  | directories (s : DirectorySearch)
  | database (d : FileDatabase)
  /-- whatever answers by the files there are -/
  | custom (label : String) (find : FileTree → ResourceClass → List String → Option Path)

namespace SearchBackend

/-- The name of a backend in reports. -/
def label : SearchBackend → String
  | .directories s => s.label
  | .database d => d.label
  | .custom label _ => label

/-- The path of the first candidate that the backend has. -/
def find (b : SearchBackend) (t : FileTree) (c : ResourceClass) (candidates : List String) :
    Option Path :=
  match b with
  | .directories s => s.find t c candidates
  | .database d => d.find c candidates
  | .custom _ find => find t c candidates

end SearchBackend

/-- Backends in the order in which they are asked, and the paths found, if they are remembered. -/
structure Resolver where
  backends : List SearchBackend := []
  cache : Option (Table (ResourceClass × String) Path) := none

namespace Resolver

/-- A database as a backend; one that cannot be read is left out with a warning. -/
def loadDatabase (t : FileTree) (p : Path) : List SearchBackend × List Warning :=
  match FileDatabase.load t p with
  | .ok d => ([.database d], [])
  | .error e => ([], [.unreadableListing p (.file e)])

/-- The resolver of a configuration: the overrides, the defaults, and the databases that can be read. Directories
without entries are left out. -/
def ofConfig (t : FileTree) (s : SearchConfig) : Resolver × List Warning :=
  let overrides : DirectorySearch := { label := "overrides", dirs := s.overrideDirs }
  let defaults : DirectorySearch := { label := "defaults", dirs := s.defaultDirs }
  let searches := [overrides, defaults].filter (!·.isEmpty)
  let databases := s.databases.map (loadDatabase t)
  ({ backends := searches.map .directories ++ databases.flatMap Prod.fst
     cache := if s.cache then some {} else none },
    databases.flatMap Prod.snd)

/-- The resolver with one more backend, which is asked last. -/
def push (r : Resolver) (b : SearchBackend) : Resolver := { r with backends := r.backends ++ [b] }

/-- How many names are remembered. -/
def cachedCount (r : Resolver) : Nat :=
  match r.cache with
  | some cache => cache.size
  | none => 0

/-- The labels of the backends, in their order, and the number of paths remembered. -/
def summary (r : Resolver) : String :=
  "Resolver \x7b backends: [" ++ ", ".intercalate (r.backends.map fun b => Text.quote b.label) ++
    "], cached: " ++ toString r.cachedCount ++ " \x7d"

/-- The path that the backends give for a name. -/
def search (r : Resolver) (t : FileTree) (name : String) (c : ResourceClass) : Option Path :=
  r.backends.findSome? fun b => b.find t c (c.candidates name)

/-- The path that is remembered for a name. -/
def cached? (r : Resolver) (name : String) (c : ResourceClass) : Option Path :=
  r.cache.bind (·.find? (c, name))

/-- Remembers a path for a name, unless the resolver has no memory. -/
def remember (r : Resolver) (name : String) (c : ResourceClass) (p : Path) : Resolver :=
  { r with cache := r.cache.map (·.insert (c, name) p) }

/-- The path of a name: the one remembered, or else the one found, which is remembered. -/
def find (r : Resolver) (t : FileTree) (name : String) (c : ResourceClass) : Option Path × Resolver :=
  match r.cached? name c with
  | some p => (some p, r)
  | none =>
    match r.search t name c with
    | some p => (some p, r.remember name c p)
    | none => (none, r)

/-- The path of a name, or the error that there is none. -/
def resolve (r : Resolver) (t : FileTree) (name : String) (c : ResourceClass) :
    Except Error Path × Resolver :=
  match r.find t name c with
  | (some p, r) => (.ok p, r)
  | (none, r) => (.error (.notFound name c), r)

end Resolver

end Dvi
