import Dvi.Json.Parser
import Dvi.Search.Config

/-!
# Search configurations as text

A configuration is written as a JSON object with up to five members, or as an array of their values in a fixed
order. Members that are missing have their default, members with other names are passed over, and none of the
five may occur twice.

* `SearchConfig.ofText?` and `SearchConfig.toJson` read and write a configuration.
-/

namespace Dvi.SearchConfig

/-- A path is a text without broken characters. -/
def path? : Json → Option Path
  | .string (some s) => some ⟨s⟩
  | _ => none

/-- A list of paths. -/
def paths? : Json → Option (List Path)
  | .array elements => elements.mapM path?
  | _ => none

/-- Lists of paths by class; of two lists for a class the second holds. -/
def pathsByClass? : Json → Option (Table ResourceClass (List Path))
  | .object members =>
    members.foldlM
      (fun t (k, v) => do
        let c ← ResourceClass.ofKey (← k)
        return t.insert c (← paths? v))
      {}
  | _ => none

/-- A truth value. -/
def bool? : Json → Option Bool
  | .bool b => some b
  | _ => none

/-- A member of a configuration: its name, and how a configuration takes its value. -/
structure Member where
  name : String
  set : SearchConfig → Json → Option SearchConfig

/-- The members of a configuration, in their order. -/
def members : List Member :=
  [⟨"texmf_roots", fun s v => (paths? v).map fun roots => { s with roots }⟩,
    ⟨"overrides", fun s v => (pathsByClass? v).map fun overrides => { s with overrides }⟩,
    ⟨"defaults", fun s v => (pathsByClass? v).map fun defaults => { s with defaults }⟩,
    ⟨"databases", fun s v => (paths? v).map fun databases => { s with databases }⟩,
    ⟨"cache", fun s v => (bool? v).map fun cache => { s with cache }⟩]

/-- Sets the members of an object. `seen` are the names met before. -/
def setMembers (s : SearchConfig) (seen : List String) : List (Option String × Json) → Option SearchConfig
  | [] => some s
  | (none, _) :: _ => none
  | (some name, value) :: rest =>
    match members.find? (·.name == name) with
    | none => setMembers s seen rest
    | some m =>
      if seen.contains name then none
      else (m.set s value).bind fun s => setMembers s (name :: seen) rest

/-- Sets members to the elements of an array, of which there may be fewer. -/
def setInOrder (s : SearchConfig) : List Member → List Json → Option SearchConfig
  | _, [] => some s
  | [], _ :: _ => none
  | m :: ms, value :: rest => (m.set s value).bind fun s => setInOrder s ms rest

/-- The configuration that a value writes: an object with members in any order, or an array in their order. -/
def ofJson? : Json → Option SearchConfig
  | .object ms => setMembers {} [] ms
  | .array elements => setInOrder {} members elements
  | _ => none

/-- The configuration that a text writes. -/
def ofText? (text : String) : Option SearchConfig := (Json.parse? text).bind ofJson?

/-- A list of paths. -/
def pathsJson (ps : List Path) : Json := .array (ps.map fun p => .ofText p.text)

/-- Lists of paths by class as a value, in the order of the classes. -/
def pathsByClassJson (t : Table ResourceClass (List Path)) : Json :=
  .record (ResourceClass.all.filterMap fun c => (t.find? c).map fun ps => (c.key, pathsJson ps))

/-- The value that writes a configuration, with all members. -/
def toJson (s : SearchConfig) : Json :=
  .record [
    ("texmf_roots", pathsJson s.roots),
    ("overrides", pathsByClassJson s.overrides),
    ("defaults", pathsByClassJson s.defaults),
    ("databases", pathsJson s.databases),
    ("cache", .bool s.cache)]

end Dvi.SearchConfig
