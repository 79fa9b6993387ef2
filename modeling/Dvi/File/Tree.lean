import Dvi.File.Path
import Dvi.File.Error

/-!
# A tree of files

A `FileTree` is everything that lies below the root of a file system, together with the directory from
which relative paths start. Paths are walked one piece at a time: `..` leads back to the directory that
was walked through, and a piece after a file is an error.

* `FileTree.isFile`, `isDirectory`, `read`, `list`, `subdirectories`: what can be asked;
* `FileTree.create`, `add`, `remove`: what can be changed.
-/

namespace Dvi

/-- A file with its content, or a directory with named entries. -/
inductive Node where
  | file (content : ByteArray)
  | directory (entries : List (String × Node))

/-- A file system: its root directory and the names that lead to the working directory. -/
structure FileTree where
  root : Node := .directory []
  workingDirectory : List String := []
  /-- the names that lead to each directory whose entries may not be listed -/
  unreadable : List (List String) := []

namespace FileTree

/-- One step of a walk: stay in a directory, go back, or go on to an entry. -/
inductive Step where
  | stay
  | up
  | into (name : String)
  deriving DecidableEq

/-- A place in the tree: the node there, and the names and directories walked through, nearest first. -/
structure Place where
  node : Node
  above : List (String × Node)

/-- The names that lead from the root to a place. -/
def Place.names (p : Place) : List String := (p.above.map Prod.fst).reverse

/-- Names may have 255 bytes. -/
def maxNameBytes : Nat := 255

/-- Paths may have 4095 bytes. -/
def maxPathBytes : Nat := 4095

/-- A path that can be walked has no zero byte, is not empty and is not too long. -/
def validate (p : Path) : Except FileError Unit :=
  if p.text.toList.contains '\x00' then .error .nulInName
  else if p.text.isEmpty then .error .notFound
  else if p.text.utf8ByteSize > maxPathBytes then .error .nameTooLong
  else .ok ()

/-- The place where a walk ends. -/
def walk (place : Place) : List Step → Except FileError Place
  | [] => .ok place
  | step :: rest =>
    match place.node with
    | .file _ => .error .notDirectory
    | .directory entries =>
      match step with
      | .stay => walk place rest
      | .up =>
        match place.above with
        | [] => walk place rest
        | (_, d) :: above => walk ⟨d, above⟩ rest
      | .into name =>
        if name.utf8ByteSize > maxNameBytes then .error .nameTooLong
        else
          match entries.lookup name with
          | none => .error .notFound
          | some child => walk ⟨child, (name, place.node) :: place.above⟩ rest

/-- The step that a piece of a path asks for. -/
def ofPiece (piece : List Char) : Step :=
  if Path.isVoid piece then .stay
  else if piece == ['.', '.'] then .up
  else .into (String.ofList piece)

/-- The steps that pieces of a path ask for, from the root. -/
def stepsOfPieces (t : FileTree) (absolute : Bool) (pieces : List (List Char)) : List Step :=
  if absolute then pieces.map ofPiece else t.workingDirectory.map .into ++ pieces.map ofPiece

/-- The steps that a path asks for, from the root. -/
def steps (t : FileTree) (p : Path) : List Step := t.stepsOfPieces p.isAbsolute (Path.pieces p.text.toList)

/-- The place that a path leads to from the root. -/
def locate (t : FileTree) (p : Path) : Except FileError Place := do
  validate p
  walk ⟨t.root, []⟩ (t.steps p)

/-- A path leads to a file. -/
def isFile (t : FileTree) (p : Path) : Bool :=
  match t.locate p with
  | .ok ⟨.file _, _⟩ => true
  | _ => false

/-- The path leads to a directory. -/
def isDirectory (t : FileTree) (p : Path) : Bool :=
  match t.locate p with
  | .ok ⟨.directory _, _⟩ => true
  | _ => false

/-- The content of the file at a path. -/
def read (t : FileTree) (p : Path) : Except FileError ByteArray :=
  match t.locate p with
  | .ok ⟨.file content, _⟩ => .ok content
  | .ok ⟨.directory _, _⟩ => .error .isDirectory
  | .error e => .error e

/-- The content of the file at a path, as read by mapping it into memory; a directory is no device that
can be mapped. -/
def map (t : FileTree) (p : Path) : Except FileError ByteArray :=
  match t.read p with
  | .error .isDirectory => .error .noDevice
  | r => r

/-- The entries of the directory at a path. -/
def list (t : FileTree) (p : Path) : Except FileError (List (String × Node)) :=
  match t.locate p with
  | .ok ⟨.directory entries, above⟩ =>
    if t.unreadable.contains (Place.names ⟨.directory entries, above⟩) then .error .denied else .ok entries
  | .ok ⟨.file _, _⟩ => .error .notDirectory
  | .error e => .error e

/-- The directories in the directory at a path, by name; none if its entries cannot be listed. -/
def subdirectories (t : FileTree) (p : Path) : List Path :=
  match t.list p with
  | .ok entries =>
    let names := entries.filterMap fun
      | (name, .directory _) => some name
      | _ => none
    (names.mergeSort fun a b => decide (a ≤ b)).map fun name => p.join ⟨name⟩
  | .error _ => []

/-- Puts a node into the place of the entry of that name, or behind all entries. -/
def setEntry (entries : List (String × Node)) (name : String) (node : Node) :
    List (String × Node) :=
  match entries with
  | [] => [(name, node)]
  | (n, old) :: rest => if n = name then (n, node) :: rest else (n, old) :: setEntry rest name node

/-- The node with another put at the end of `names`; directories that are missing on the way are made. -/
def put (node : Node) : List String → Node → Node
  | [], _ => node
  | name :: names, .file _ => .directory [(name, put node names (.directory []))]
  | name :: names, .directory entries =>
    .directory (setEntry entries name (put node names ((entries.lookup name).getD (.directory []))))

/-- The node without the entry at the end of `names`. -/
def cut : List String → Node → Node
  | _, .file content => .file content
  | [], node => node
  | [name], .directory entries => .directory (entries.filter (·.1 != name))
  | name :: names, .directory entries =>
    match entries.lookup name with
    | none => .directory entries
    | some child => .directory (setEntry entries name (cut names child))

/-- The tree with a file created or overwritten. The path must end in a name, and what stands before the
name must be a directory. -/
def create (t : FileTree) (p : Path) (content : ByteArray) : Except FileError FileTree := do
  validate p
  let backward := (Path.pieces p.text.toList).reverse
  let front := (backward.dropWhile (· == [])).tail.reverse
  let last := ((backward.dropWhile (· == [])).head?).getD []
  let place ← walk ⟨t.root, []⟩ (t.stepsOfPieces p.isAbsolute front)
  match place.node, ofPiece last with
  | .file _, _ => throw .notDirectory
  | .directory entries, .into name =>
    if backward.head? == some [] then throw .isDirectory
    if name.utf8ByteSize > maxNameBytes then throw .nameTooLong
    match entries.lookup name with
    | some (.directory _) => throw .isDirectory
    | _ => return { t with root := put (.file content) (place.names ++ [name]) t.root }
  | .directory _, _ => throw .isDirectory

/-- The names that a path spells from the root, without regard to what is there: `..` takes back the name
before it. -/
def spelledNames (t : FileTree) (p : Path) : List String :=
  ((t.steps p).foldl (fun names step =>
    match step with
    | .into name => name :: names
    | .up => names.tail
    | .stay => names) []).reverse

/-- The tree with a file, or with a directory if there is no content, and with all directories that lead
to it. -/
def add (t : FileTree) (p : Path) (content : Option ByteArray) : FileTree :=
  let names := t.spelledNames p
  match content with
  | some bytes => { t with root := put (.file bytes) names t.root }
  | none => if t.isDirectory p then t else { t with root := put (.directory []) names t.root }

/-- The tree without what lies at a path. -/
def remove (t : FileTree) (p : Path) : FileTree :=
  match t.locate p with
  | .ok place => { t with root := cut place.names t.root }
  | .error _ => t

end FileTree

end Dvi
