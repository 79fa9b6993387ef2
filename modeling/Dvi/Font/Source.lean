import Dvi.Font.Definition
import Dvi.Font.MapRecord
import Dvi.Font.Metrics
import Dvi.Warning

/-!
# Sources of fonts

When a stream defines a font, its metrics and its font map record come from a source. A source may remember
what it was asked, so an answer comes with the source as it is afterwards.

* `NoFonts` knows none;
* `MetricsTable` holds metrics by font name;
* functions from names are sources whose answer depends on nothing else.
-/

namespace Dvi

/-- What a source found for a font. -/
structure ResolvedFont where
  metrics : Option Metrics := none
  record : Option MapRecord := none

/-- Something that can be asked for the resources of a font. -/
class FontSource (σ : Type) where
  resolve : σ → FontDefinition → ResolvedFont × List Warning × σ

/-- A source that knows no font. -/
structure NoFonts where
  deriving DecidableEq

instance : FontSource NoFonts where
  resolve s _ := ({}, [], s)

/-- Metrics by font name. -/
structure MetricsTable where
  metrics : Table String Metrics := {}

instance : FontSource MetricsTable where
  resolve s f := ({ metrics := s.metrics.find? f.name }, [], s)

/-- A source whose answer depends on the font name only. -/
structure NamedFonts where
  answer : String → ResolvedFont

instance : FontSource NamedFonts where
  resolve s f := (s.answer f.name, [], s)

end Dvi
