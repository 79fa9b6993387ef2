/-!
# Paths

A path is a text whose slashes separate pieces. The text is kept as written: joining adds to it, and the
parent of a path is a part of its text. What a path *means* is read off its components, which leave out
empty pieces and every `.` except one at the front of a relative path.

Names of files are texts, too. A file whose name is not UTF-8 has no path here, and nothing is said of what becomes of
such a name when it is turned into a text.

* `Path`, `Path.join`, `Path.components`;
* `Path.parent`, `Path.fileName`, `Path.fileStem`, `Path.fileExtension`;
* `Path.contains`: the components of one path stand side by side in another.
-/

namespace Dvi

/-- A file path, as written. -/
structure Path where
  text : String
  deriving DecidableEq, Repr, Inhabited

namespace Path

/-- What a path is made of. -/
inductive Component where
  | root
  | here
  | up
  | name (s : String)
  deriving DecidableEq, Repr

/-- The pieces of a text between its slashes; there is always one more than there are slashes. -/
def pieces : List Char → List (List Char)
  | [] => [[]]
  | '/' :: rest => [] :: pieces rest
  | c :: rest =>
    match pieces rest with
    | [] => [[c]]
    | p :: ps => (c :: p) :: ps

/-- The path starts at the root of the file system. -/
def isAbsolute (p : Path) : Bool := p.text.toList.head? == some '/'

/-- A piece that names nothing: empty, or a `.` that is not at the front. -/
def isVoid (piece : List Char) : Bool := piece == [] || piece == ['.']

/-- The component that a piece between separators stands for. -/
def ofPiece (piece : List Char) : Component :=
  if piece == ['.', '.'] then .up else .name (String.ofList piece)

/-- The components at the front of a path, if any, and the pieces after them. -/
def split (p : Path) : List Component × List (List Char) :=
  let all := pieces p.text.toList
  if p.isAbsolute then ([.root], all.tail)
  else if all.head? == some ['.'] then ([.here], all.tail)
  else ([], all)

/-- The components of a path. Pieces that say nothing are no components. -/
def components (p : Path) : List Component :=
  p.split.1 ++ (p.split.2.filter (!isVoid ·)).map ofPiece

/-- Path `q` seen from path `p`: an absolute `q` stands for itself, otherwise one slash separates the two
texts unless `p` is empty or ends in one. -/
def join (p q : Path) : Path :=
  if q.isAbsolute then q
  else if p.text.isEmpty || p.text.toList.getLast? == some '/' then ⟨p.text ++ q.text⟩
  else ⟨p.text ++ "/" ++ q.text⟩

/-- The pieces without the void ones at their end. -/
def dropVoidEnd (ps : List (List Char)) : List (List Char) := (ps.reverse.dropWhile isVoid).reverse

/-- The text of pieces with slashes between them. -/
def joinPieces (ps : List (List Char)) : String := String.ofList (['/'].intercalate ps)

/-- The path without its last component and the slashes before that; none if there is no component that
could go. -/
def parent (p : Path) : Option Path :=
  let (front, body) := p.split
  match front, dropVoidEnd body with
  | [], [] => none
  | .root :: _, [] => none
  | _, [] => some ⟨""⟩
  | front, body =>
    let kept := dropVoidEnd body.dropLast
    some ⟨match front with
      | [] => joinPieces kept
      | .root :: _ => "/" ++ joinPieces kept
      | _ => joinPieces (['.'] :: kept)⟩

/-- The last component, if it is a name. -/
def fileName (p : Path) : Option String :=
  match p.components.getLast? with
  | some (.name s) => some s
  | _ => none

/-- The parts of a file name before and after its last dot. A dot at the front separates nothing. -/
def splitExtension (name : String) : String × Option String :=
  let cs := name.toList
  let after := cs.reverse.takeWhile (· != '.')
  let before := cs.reverse.dropWhile (· != '.')
  match before with
  | [] | ['.'] => (name, none)
  | _ :: stem => (String.ofList stem.reverse, some (String.ofList after.reverse))

/-- The file name up to its last dot. -/
def fileStem (p : Path) : Option String := p.fileName.map fun n => (splitExtension n).1

/-- What follows the last dot of the file name. -/
def fileExtension (p : Path) : Option String := p.fileName.bind fun n => (splitExtension n).2

/-- The path that components spell, joined one after another. -/
def ofComponents (cs : List Component) : Path :=
  cs.foldl (fun p c => p.join ⟨match c with
    | .root => "/"
    | .here => "."
    | .up => ".."
    | .name s => s⟩) ⟨""⟩

/-- The first list stands somewhere in the second, without gaps. -/
def occurs {α : Type} [BEq α] (part : List α) : List α → Bool
  | [] => part.isEmpty
  | a :: rest => part.isPrefixOf (a :: rest) || occurs part rest

/-- The components of `q`, of which there must be one, stand side by side in `p`. -/
def contains (p q : Path) : Bool := q.components != [] && occurs q.components p.components

example : (Path.mk "./a//b/.").components = [.here, .name "a", .name "b"] := by decide +kernel
example : (Path.mk "/a//b/").parent = some ⟨"/a"⟩ ∧ (Path.mk "a").parent = some ⟨""⟩ ∧
    (Path.mk "/").parent = none := by decide +kernel
example : (Path.mk "d/.gz").fileExtension = none ∧ (Path.mk "d/a.b.gz").fileStem = some "a.b" := by
  decide +kernel

end Path

end Dvi
