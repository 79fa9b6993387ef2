import Dvi.Tool.FontReporter
import Dvi.Tool.PageLister

/-!
# The tools

A tool is chosen by its name. What a tool will look at can be told from its arguments before it runs.

* `Tool.run`: a run of a tool;
* `Needs.ofArguments`, `FileDatabase.paths`: the files and directories that a run may look at.
-/

namespace Dvi

/-- All paths that a database lists. -/
def FileDatabase.paths (d : FileDatabase) : List Path :=
  d.entries.toList.flatMap fun (name, dirs) => dirs.toList.map (·.join ⟨name⟩)

/-- The directories of a configuration, without the marks for their subdirectories. -/
def SearchConfig.directories (c : SearchConfig) : List Path :=
  c.roots ++ (c.overrides.values.flatten ++ c.defaults.values.flatten).map fun p => (SearchDir.ofPath p).path

namespace Tool

/-- The run of the tool with a name. -/
def run (tool : String) (arguments : List String) (around : Surroundings) : Option Outcome :=
  if tool = PageLister.usage.tool then some (PageLister.run arguments around)
  else if tool = FontReporter.usage.tool then some (FontReporter.run arguments around)
  else none

/-- What a run looks at, as far as the command line tells. -/
structure Needs where
  search : SearchSettings := {}
  inputs : List Path := []
  /-- the file that is written -/
  outfile : Option Path := none

/-- What a run of a tool looks at. -/
def Needs.ofArguments (tool : String) (arguments : List String) : Needs :=
  if tool = PageLister.usage.tool then
    match PageLister.usage.read {} arguments with
    | .run s => { search := s.search, inputs := s.files, outfile := s.outfile.map Path.mk }
    | _ => {}
  else
    match FontReporter.usage.read {} arguments with
    | .run s => { search := s.search }
    | _ => {}

end Tool

end Dvi
