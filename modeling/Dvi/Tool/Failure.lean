import Dvi.Error

/-!
# Failures

What ends a tool: what it was about, and the causes behind that, outermost first.

* `Failure.report`: the text shown to the user. A single cause stands alone, **several are numbered**, and
  further lines of a cause are indented like the first.
-/

namespace Dvi.Tool

/-- Why a tool ended, and the causes behind it. -/
structure Failure where
  message : String
  causes : List String := []
  deriving DecidableEq, Repr

namespace Failure

/-- The failure for an error and its cause. -/
def ofError (e : Error) : Failure := { message := e.message, causes := e.cause.toList }

/-- A failure that arose in the course of something. -/
def during (f : Failure) (activity : String) : Failure :=
  { message := activity, causes := f.message :: f.causes }

/-- A text whose lines after the first are indented. -/
def indentLines (indentation : String) (s : String) : String :=
  String.ofList (s.toList.flatMap fun c => if c = '\n' then '\n' :: indentation.toList else [c])

/-- The lines of the causes, which are numbered if there are several. -/
def causeLines : List String → List String
  | [] => []
  | [cause] => ["    " ++ indentLines "    " cause]
  | causes => causes.mapIdx fun i cause =>
    let number := toString i
    let margin := String.ofList (List.replicate (5 - number.length) ' ')
    margin ++ number ++ ": " ++ indentLines "       " cause

/-- What is printed of a failure. -/
def report (f : Failure) : String :=
  let causes := if f.causes.isEmpty then [] else ["", "Caused by:"] ++ causeLines f.causes
  String.join ((("Error: " ++ f.message) :: causes).map (· ++ "\n"))

example : (Failure.mk "a" []).report = "Error: a\n" ∧
    (Failure.mk "a" ["b"]).report = "Error: a\n\nCaused by:\n    b\n" ∧
    (Failure.mk "a" ["b", "c"]).report = "Error: a\n\nCaused by:\n    0: b\n    1: c\n" := by
  decide +kernel

end Failure

end Dvi.Tool
