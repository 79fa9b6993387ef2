import Std.Data.HashMap
import Dvi.File.Tree
import Dvi.Gzip.Member
import Dvi.Search.Class
import Dvi.Text.Lines
import Dvi.Text.Utf8

/-!
# Databases of file names

A database lists directories and the names of the files in each. A line that ends in a colon names a directory,
relative to where the database lies; the lines up to the next such line are names of files in it. A database
may be compressed.

* `FileDatabase.ofText`: the database that a text lists;
* `FileDatabase.find`: the first candidate that is listed, **in a directory for its class if there is one**.
-/

namespace Dvi

/-- File names with the directories in which they are listed, in the order of the listing. -/
structure FileDatabase where
  label : String
  entries : Std.HashMap String (Array Path) := {}

namespace FileDatabase

/-- The directories in which a name is listed. -/
def directories (d : FileDatabase) (name : String) : List Path := (d.entries.getD name #[]).toList

/-- The number of names. -/
def size (d : FileDatabase) : Nat := d.entries.size

/-- The directory that a line names, seen from the root. -/
def directoryOf (root : Path) (name : List Char) : Path :=
  root.join (.ofComponents ((Path.mk (String.ofList name)).components.filter (· != .here)))

/-- What a line of a database says. -/
inductive Line where
  | nothing
  | directory (name : List Char)
  | file (name : String)
  deriving DecidableEq

/-- What a line says, blanks at its end left out: nothing if it is empty or begins with a percent sign. -/
def Line.ofText (text : String) : Line :=
  let cs := Text.dropBlanksEnd text.toList
  if cs.isEmpty || cs.head? == some '%' then .nothing
  else if cs.getLast? == some ':' then .directory cs.dropLast
  else .file (String.ofList cs)

/-- The directory and the entries after a line. -/
def addLine (root : Path) (state : Path × Std.HashMap String (Array Path)) (text : String) :
    Path × Std.HashMap String (Array Path) :=
  let (current, entries) := state
  match Line.ofText text with
  | .nothing => state
  | .directory name => (directoryOf root name, entries)
  | .file name => (current, entries.insert name ((entries.getD name #[]).push current))

/-- The database that a listing writes. Until a directory is named, files are in the root. -/
def ofText (text : String) (root : Path) (label : String) : FileDatabase :=
  { label, entries := ((Text.lines text).foldl (addLine root) (root, {})).2 }

/-- The bytes up to the last line feed. -/
def completeLines (data : ByteArray) : ByteArray :=
  ⟨(data.data.toList.reverse.dropWhile (· != 10)).reverse.toArray⟩

/-- The database in bytes that may have been cut short by an error. A line that is no text counts if it is
complete. -/
def ofBytes (data : ByteArray) (failure : Option FileError) (root : Path) (label : String) :
    Except FileError FileDatabase :=
  match failure with
  | some e => if (Utf8.decode? (completeLines data)).isSome then .error e else .error .notUtf8
  | none =>
    match Utf8.decode? data with
    | some text => .ok (ofText text root label)
    | none => .error .notUtf8

/-- The database in a file. It is compressed if the file name says so. -/
def load (t : FileTree) (p : Path) : Except FileError FileDatabase := do
  let data ← t.read p
  let root := p.parent.getD ⟨"."⟩
  if p.fileExtension = some "gz" then
    let (text, failure) := Gzip.decompress data
    ofBytes text (failure.map .gzip) root p.text
  else ofBytes data none root p.text

/-- The first candidate that is listed, in the first directory that lies in the tree of the class, or else in
the first of all. -/
def find (d : FileDatabase) (c : ResourceClass) (candidates : List String) : Option Path :=
  candidates.findSome? fun name =>
    let dirs := d.directories name
    ((dirs.find? fun dir => dir.contains ⟨c.subdirectory⟩) <|> dirs.head?).map fun dir => dir.join ⟨name⟩

end FileDatabase

end Dvi
