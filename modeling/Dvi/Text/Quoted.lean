import Dvi.Text.Visible

/-!
# Text in quotes

A text that is shown to a reader stands in quotes. What would end it early, or would not be seen, is spelled
out: quotes and backslashes behind a backslash, the zero byte, tab and the ends of lines as a letter, and
every other character that is not visible as its number.

* `quote`: the text in quotes.
-/

namespace Dvi.Text

/-- A character by its number, in hexadecimal digits without leading zeros. -/
def numbered (c : Char) : List Char := ['\\', 'u', '\x7b'] ++ Nat.toDigits 16 c.toNat ++ ['\x7d']

/-- A character within quotes, with an escape if it needs one. -/
def quotedChar (c : Char) : List Char :=
  match c with
  | '\x00' => ['\\', '0']
  | '\t' => ['\\', 't']
  | '\n' => ['\\', 'n']
  | '\r' => ['\\', 'r']
  | '"' => ['\\', '"']
  | '\\' => ['\\', '\\']
  | c => if isVisible c then [c] else numbered c

/-- A text in quotes. -/
def quote (s : String) : String := "\"" ++ String.ofList (s.toList.flatMap quotedChar) ++ "\""

example : quote "a\u00a0b\\é" = "\"a\\u\x7ba0\x7db\\\\é\"" := by decide +kernel

end Dvi.Text
