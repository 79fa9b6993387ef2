import Dvi.Font.MapFields
import Dvi.Font.MapRecord

/-!
# Lines of font maps

A line is a font name and further fields, which blanks separate; a field in double quotes may hold blanks.
There are two ways to write the fields:

* **positional**: an encoding, a file, and then options, each a flag and a value;
* **marked**: in any order a font name, a number of flags, code in quotes, and files behind `<`.

A line is marked if it holds a quote or a `<`, or has two fields; every other line is positional. Blank lines
and lines that begin with one of four signs say nothing.
-/

namespace Dvi

/-- What is wrong with a line. -/
inductive RecordDefect where
  | unterminatedQuote
  | quotedName
  | unexpectedField (text : String)
  | emptyFlag
  | missingValue (flag : String)
  | badNumber (value : String)
  | badValue (flag value : String)
  | badIndex (value : String)
  | missingFile
  deriving DecidableEq, Repr

/-- The text of what is wrong with a line. -/
def RecordDefect.message : RecordDefect → String
  | .unterminatedQuote => "unterminated quoted string"
  | .quotedName => "font name must not be quoted"
  | .unexpectedField text => s!"unexpected field '{text}'"
  | .emptyFlag => "empty option flag"
  | .missingValue flag => s!"missing value for '-{flag}' option"
  | .badNumber value => s!"invalid number '{value}' for '-s' option"
  | .badValue flag value => s!"invalid value '{value}' for '-{flag}' option"
  | .badIndex value => s!"invalid TTC index '{value}'"
  | .missingFile => "missing file name after '<'"

namespace MapLine

/-! ## Kinds of lines -/

/-- The line says nothing. -/
def isComment (line : List Char) : Bool :=
  match line with
  | [] => true
  | c :: _ => c == '%' || c == '#' || c == '*' || c == ';'

/-- The fields are written in the marked way. -/
def isMarked (line : List Char) (fs : List Field) : Bool :=
  line.contains '"' || line.contains '<' || fs.length == 2

/-! ## Positional lines -/

/-- The flag of an option that has no value. -/
def bareFlag : String := "r"

/-- A field is not the flag of an option. -/
def isPositional (f : Field) : Bool := f.quoted || f.text.toList.head? != some '-'

/-- The values that an option takes: a number for the slant, a positive number for the extension and the
weight, a whole number for the index in a collection. -/
def checkOption (flag value : String) : Except RecordDefect Unit :=
  if flag == "s" then
    if (Binary64.ofText value).isSome then .ok () else .error (.badNumber value)
  else if flag == "e" || flag == "b" then
    if (Binary64.ofText value).any Binary64.isPositive then .ok () else .error (.badValue flag value)
  else if flag == "i" then
    if (wholeNumber? UInt32.size value).isSome then .ok () else .error (.badIndex value)
  else .ok ()

/-- The options that follow the positional fields. Each but one has the next field for its value. -/
def options (r : MapRecord) : List Field → Except RecordDefect MapRecord
  | [] => .ok r
  | f :: rest =>
    match f.quoted, f.text.toList with
    | false, '-' :: flag =>
      let flag := String.ofList flag
      if flag == "" then .error .emptyFlag
      else if flag == bareFlag then options (r.setOption flag "") rest
      else
        match rest with
        | [] => .error (.missingValue flag)
        | value :: rest =>
          match checkOption flag value.text with
          | .ok () => options (r.setOption flag value.text) rest
          | .error e => .error e
    | _, _ => .error (.unexpectedField f.text)

/-- The record of a positional line after its name. -/
def positional (texName : String) (fs : List Field) : Except RecordDefect MapRecord :=
  let r : MapRecord := { texName }
  match fs with
  | [] => .ok r
  | encoding :: rest =>
    if isPositional encoding then
      let r := r.setEncoding encoding.text
      match rest with
      | [] => .ok r
      | file :: rest' =>
        if isPositional file then options { r with file := some file.text } rest' else options r rest
    else options r fs

/-! ## Marked lines -/

/-- The option under which code in quotes is kept, and the one for a number of flags. -/
def codeOption : String := "ps"

/-- The option that holds the flags of a line in the other format. -/
def flagsOption : String := "flags"

/-- Adds code to that of a record, with a space between. -/
def addCode (r : MapRecord) (code : String) : MapRecord :=
  let old := (r.options.find? codeOption).getD ""
  r.setOption codeOption ((if old == "" then "" else old ++ " ") ++ Text.trim code)

/-- Adds a file: an encoding if it is marked as one or has the suffix of one, otherwise the font file. -/
def addFile (r : MapRecord) (isEncoding : Bool) (name : String) : MapRecord :=
  if isEncoding || ".enc".toList.isSuffixOf (Text.lower name).toList then r.setEncoding name
  else { r with file := some name }

/-- Adds a field without mark: the first that is not a number is the font name. -/
def addWord (r : MapRecord) (text : String) : MapRecord :=
  if text.toList.all Char.isDigit then r.setOption flagsOption text
  else if r.fontName.isNone then { r with fontName := some text }
  else r

/-- What follows a `<`: whether it is marked as an encoding, and the name, if it follows at once. -/
def splitMark : List Char → Bool × List Char
  | '[' :: name => (true, name)
  | '<' :: name => (false, name)
  | name => (false, name)

/-- Adds the fields of a marked line to a record. -/
def marked (r : MapRecord) : List Field → Except RecordDefect MapRecord
  | [] => .ok r
  | f :: rest =>
    if f.quoted then marked (addCode r f.text) rest
    else
      match f.text.toList with
      | '<' :: target =>
        match splitMark target with
        | (isEncoding, []) =>
          match rest with
          | [] => .error .missingFile
          | next :: rest => marked (addFile r isEncoding next.text) rest
        | (isEncoding, name) => marked (addFile r isEncoding (String.ofList name)) rest
      | _ => marked (addWord r f.text) rest

/-! ## Lines -/

/-- The record that a line writes, or what is wrong with it; none if it says nothing. -/
def parse (text : String) : Option (Except RecordDefect MapRecord) :=
  let line := Text.dropBlanks text.toList
  if isComment line then none
  else
    match fields line with
    | none => some (.error .unterminatedQuote)
    | some [] => none
    | some (first :: rest) =>
      if first.quoted then some (.error .quotedName)
      else if isMarked line (first :: rest) then some (marked { texName := first.text } rest)
      else some (positional first.text rest)

end MapLine

end Dvi
