/-!
# Lines

A line ends at a line feed, or at a carriage return and a line feed; neither belongs to it. Text after the
last line feed is a line if there is any.
-/

namespace Dvi.Text

/-- A line that ended at a line feed, without the carriage return before it. -/
def dropReturn (line : List Char) : List Char :=
  match line.getLast? with
  | some '\r' => line.dropLast
  | _ => line

/-- The lines of `cs` after the part `current` of the line under way, which is in reverse. -/
def splitLines (current : List Char) : List Char → List (List Char)
  | [] => if current.isEmpty then [] else [current.reverse]
  | '\n' :: rest => dropReturn current.reverse :: splitLines [] rest
  | c :: rest => splitLines (c :: current) rest

/-- The lines of a text, without their ends. -/
def lines (s : String) : List String := (splitLines [] s.toList).map String.ofList

example : lines "a\r\n\nb" = ["a", "", "b"] := by decide +kernel
example : lines "a\n" = ["a"] ∧ lines "a\r" = ["a\r"] := by decide +kernel

end Dvi.Text
