import Dvi.Font.Map
import Dvi.Font.MetricsFile
import Dvi.Font.Source

/-!
# Font libraries

A font library finds metrics files through a resolver and may have a font map. It remembers the metrics of each
font name, also that there are none, so **a metrics file is read once**.

* `FontLibrary.metrics`: the metrics of a font name;
* `FontLibrary.resolve`: all that is known of a font that a stream defines.
-/

namespace Dvi

/-- Where fonts are looked up, and the metrics looked up so far. -/
structure FontLibrary where
  files : FileTree
  resolver : Resolver
  map : Option FontMap := none
  loaded : Table String (Option Metrics) := {}

/-- The metrics in a file, which gives them its name. -/
def Metrics.load (t : FileTree) (p : Path) : Except Error Metrics :=
  match t.read p with
  | .error e => .error (.file e)
  | .ok data =>
    let name := p.fileStem.getD ""
    match Metrics.ofBytes name data with
    | .ok m => .ok m
    | .error d => .error (.malformedMetrics name d)

namespace FontLibrary

/-- Looks up the metrics of a font name. -/
def loadMetrics (l : FontLibrary) (name : String) : Option Metrics × List Warning × FontLibrary :=
  match l.resolver.resolve l.files name .tfm with
  | (.error _, resolver) => (none, [], { l with resolver })
  | (.ok p, resolver) =>
    match Metrics.load l.files p with
    | .ok m => (some m, [], { l with resolver })
    | .error e => (none, [.unreadableMetrics name p e], { l with resolver })

/-- The metrics of a font name: those looked up before, or else those found now. -/
def metrics (l : FontLibrary) (name : String) : Option Metrics × List Warning × FontLibrary :=
  match l.loaded.find? name with
  | some answer => (answer, [], l)
  | none =>
    let (answer, warnings, l) := l.loadMetrics name
    (answer, warnings, { l with loaded := l.loaded.insert name answer })

/-- Both check sums are given, and they differ. -/
def checksumWarnings (f : FontDefinition) : Option Metrics → List Warning
  | some m =>
    if f.checksum ≠ 0 && m.checksum ≠ 0 && f.checksum ≠ m.checksum then
      [.checksum f.name f.checksum m.checksum]
    else []
  | none => []

/-- All that is known of a font that a stream defines. -/
def resolve (l : FontLibrary) (f : FontDefinition) : ResolvedFont × List Warning × FontLibrary :=
  let record := l.map.bind (·.get? f.name)
  let (metrics, warnings, l) := l.metrics f.name
  ({ metrics, record }, warnings ++ checksumWarnings f metrics, l)

instance : FontSource FontLibrary := ⟨resolve⟩

end FontLibrary

end Dvi
