import Dvi.Tool.Setup

/-!
# Outcomes

What a run of a tool leaves behind.

* `Outcome.ofRequest`: help, version and mistaken command lines are answered alike by all tools.
-/

namespace Dvi.Tool

/-- The exit code, the two texts, and the files after a run. -/
structure Outcome where
  exit : UInt8
  output : String
  diagnostics : String
  files : FileTree

/-- The exit code of a command line that is not understood. -/
def invalidExit : UInt8 := 2

/-- The exit code of a run that succeeded, or that failed. -/
def exitOf (success : Bool) : UInt8 := if success then 0 else 1

/-- What comes of a request: the tool runs only if it was asked to. -/
def Outcome.ofRequest {σ : Type} (u : Usage σ) (files : FileTree) (run : σ → Outcome) : Request σ → Outcome
  | .run settings => run settings
  | .help => { exit := 0, output := u.helpText, diagnostics := "", files }
  | .version => { exit := 0, output := u.versionText, diagnostics := "", files }
  | .invalid => { exit := invalidExit, output := "", diagnostics := u.invalidText, files }

end Dvi.Tool
