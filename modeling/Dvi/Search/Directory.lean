import Dvi.File.Tree
import Dvi.Search.Config

/-!
# Searching directories

A directory is searched for each candidate in turn. A search with all below it goes on to the directories
inside, in the order of their names, and before the next of them to what lies below the first.

* `FileTree.findIn`, `FileTree.findBelow`: one directory, and one with all below it;
* `DirectorySearch`: a list of directories for each class.
-/

namespace Dvi

/-- A search goes down through so many directories. -/
def maxSearchDepth : Nat := 32

namespace FileTree

/-- The first candidate that is a file in a directory. -/
def findIn (t : FileTree) (candidates : List String) (dir : Path) : Option Path :=
  (candidates.map fun name => dir.join ⟨name⟩).find? t.isFile

/-- The first candidate in a directory, or else the first found below one of the directories inside. -/
def findBelow (t : FileTree) (candidates : List String) : (depth : Nat) → Path → Option Path
  | 0, dir => t.findIn candidates dir
  | depth + 1, dir =>
    t.findIn candidates dir <|> (t.subdirectories dir).findSome? (findBelow t candidates depth)

/-- The first candidate found in a directory that is to be searched. -/
def search (t : FileTree) (candidates : List String) (dir : SearchDir) : Option Path :=
  if dir.recursive then t.findBelow candidates maxSearchDepth dir.path else t.findIn candidates dir.path

end FileTree

/-- The directories searched for each class. -/
structure DirectorySearch where
  label : String
  dirs : ResourceClass → List SearchDir

namespace DirectorySearch

/-- No class has a directory. -/
def isEmpty (s : DirectorySearch) : Bool := ResourceClass.all.all fun c => (s.dirs c).isEmpty

/-- The first candidate found in the directories of a class. -/
def find (s : DirectorySearch) (t : FileTree) (c : ResourceClass) (candidates : List String) :
    Option Path := (s.dirs c).findSome? (t.search candidates)

end DirectorySearch

end Dvi
