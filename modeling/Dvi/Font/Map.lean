import Dvi.Font.MapLine
import Dvi.Search.Resolver
import Dvi.Text.Lines
import Dvi.Text.Utf8
import Dvi.Warning

/-!
# Font maps

A font map holds records by font name. Records are added in one of three modes; lines that write no record are
reported and passed over.

* `FontMap.apply`: adds, keeps or removes one record;
* `FontMap.addLines`: adds the records of lines;
* `FontMap.loadNamed`: those of a map that is looked up by name, where **a sign in front of the name chooses
  the mode**. A load can fail; there is a map afterwards also then.
-/

namespace Dvi

/-- How a record combines with the one of the same name. -/
inductive MapMode where
  /-- the new record holds -/
  | replace
  /-- the old record holds -/
  | append
  /-- the old record goes -/
  | remove
  deriving DecidableEq, Repr

namespace MapMode

/-- The mode that a sign stands for. -/
def ofSign (c : Char) : Option MapMode :=
  match c with
  | '+' => some .append
  | '=' => some .replace
  | '-' => some .remove
  | _ => none

/-- The mode that a sign in front of a name chooses, and the name after it. -/
def split? (name : String) : Option (MapMode × String) :=
  match name.toList with
  | [] => none
  | c :: rest => (ofSign c).map fun mode => (mode, String.ofList rest)

end MapMode

/-- Records by font name, in the order in which they were first added. -/
structure FontMap where
  records : Table String MapRecord := {}

namespace FontMap

/-- The record of a font. -/
def get? (m : FontMap) (name : String) : Option MapRecord := m.records.find? name

/-- The record of a font, or the error that there is none. -/
def lookup (m : FontMap) (name : String) : Except Error MapRecord :=
  match m.get? name with
  | some r => .ok r
  | none => .error (.fontNotMapped name)

/-- Adds a record. The second value is whether the map took part in it. -/
def apply (m : FontMap) (mode : MapMode) (r : MapRecord) : FontMap × Bool :=
  match mode with
  | .replace => (⟨m.records.insert r.texName r⟩, true)
  | .append => if m.records.contains r.texName then (m, false) else (⟨m.records.insert r.texName r⟩, true)
  | .remove => (⟨m.records.erase r.texName⟩, m.records.contains r.texName)

/-- What a load has done: how many records were added, and what was wrong with other lines. -/
structure Loaded where
  applied : Nat := 0
  warnings : List Warning := []

/-- Adds the record of a line, whose number is given. -/
def addLine (mode : MapMode) (label : String) (state : Loaded × FontMap) (line : String × Nat) : Loaded × FontMap :=
  let (l, m) := state
  match MapLine.parse line.1 with
  | none => (l, m)
  | some (.ok r) =>
    let (m, changed) := m.apply mode r
    ({ l with applied := if changed then l.applied + 1 else l.applied }, m)
  | some (.error e) => ({ l with warnings := l.warnings ++ [.mapLine label line.2 e] }, m)

/-- Adds the records of lines, which are counted from one. -/
def addLines (m : FontMap) (lines : List String) (mode : MapMode) (label : String) : Loaded × FontMap :=
  (lines.zipIdx 1).foldl (addLine mode label) ({}, m)

/-- The label of maps that are in no file. -/
def memoryLabel : String := "<memory>"

/-- The map that a text writes. -/
def ofText (text : String) : Loaded × FontMap := addLines {} (Text.lines text) .replace memoryLabel

/-- A load of records into a map. Also if it fails, there is a map afterwards. -/
abbrev Loading : Type := EStateM Error FontMap Loaded

/-- Adds the records in bytes, which must be text. -/
def loadBytes (data : ByteArray) (mode : MapMode) (label : String) : Loading := do
  match Utf8.decode? data with
  | some text => modifyGet (·.addLines (Text.lines text) mode label)
  | none => throw (.file .notUtf8)

/-- Adds the records in a file. -/
def loadFile (t : FileTree) (p : Path) (mode : MapMode) : Loading := do
  match t.read p with
  | .ok data => loadBytes data mode p.text
  | .error e => throw (.file e)

/-- Adds the records of the map with a name. -/
def loadNamed (r : Resolver) (t : FileTree) (name : String) (mode : MapMode) : Loading × Resolver :=
  let (mode, name) := (MapMode.split? name).getD (mode, name)
  match r.resolve t name .fontMap with
  | (.ok p, r) => (loadFile t p mode, r)
  | (.error e, r) => (throw e, r)

end FontMap

end Dvi
