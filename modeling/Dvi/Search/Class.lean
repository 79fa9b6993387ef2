import Dvi.Text.Blank

/-!
# Classes of files

The files that typesetting needs come in eight classes. A class knows the suffixes of its files, the
environment variable that lists directories for it, and where in a tree of such files it is kept.

* `ResourceClass.candidates`: the file names tried for a name;
* `ResourceClass.ofText`: the class that a user names.
-/

namespace Dvi

/-- A kind of file that can be looked up by name. -/
inductive ResourceClass where
  | fontMap
  | tfm
  | virtualFont
  | type1
  | trueType
  | openType
  | encoding
  | subfont
  deriving DecidableEq, Repr, Inhabited

namespace ResourceClass

/-- The classes in their order, in which a key is looked up. -/
def all : List ResourceClass :=
  [.fontMap, .tfm, .virtualFont, .type1, .trueType, .openType, .encoding, .subfont]

/-- The file name suffixes of a class, in the order in which they are tried. -/
def suffixes : ResourceClass → List String
  | .fontMap => [".map"]
  | .tfm => [".tfm"]
  | .virtualFont => [".vf", ".ovf"]
  | .type1 => [".pfb", ".pfa"]
  | .trueType => [".ttf", ".ttc"]
  | .openType => [".otf"]
  | .encoding => [".enc"]
  | .subfont => [".sfd"]

/-- The environment variable that lists directories for a class. -/
def environmentVariable : ResourceClass → String
  | .fontMap => "TEXFONTMAPS"
  | .tfm => "TFMFONTS"
  | .virtualFont => "VFFONTS"
  | .type1 => "T1FONTS"
  | .trueType => "TTFONTS"
  | .openType => "OPENTYPEFONTS"
  | .encoding => "ENCFONTS"
  | .subfont => "SFDFONTS"

/-- Where a class is kept below the root of a tree. -/
def subdirectory : ResourceClass → String
  | .fontMap => "fonts/map"
  | .tfm => "fonts/tfm"
  | .virtualFont => "fonts/vf"
  | .type1 => "fonts/type1"
  | .trueType => "fonts/truetype"
  | .openType => "fonts/opentype"
  | .encoding => "fonts/enc"
  | .subfont => "fonts/sfd"

/-- The name of a class in configurations. -/
def name : ResourceClass → String
  | .fontMap => "font_map"
  | .tfm => "tfm"
  | .virtualFont => "virtual_font"
  | .type1 => "type1"
  | .trueType => "truetype"
  | .openType => "opentype"
  | .encoding => "encoding"
  | .subfont => "subfont"

/-- The key of a class in configuration files. -/
def key : ResourceClass → String
  | .trueType => "true_type"
  | .openType => "open_type"
  | c => c.name

/-- The class of a key. -/
def ofKey (s : String) : Option ResourceClass := all.find? (·.key == s)

/-- What a user may write for a class, besides its name. -/
def aliases : ResourceClass → List String
  | .fontMap => ["map", "fontmap"]
  | .tfm => []
  | .virtualFont => ["vf"]
  | .type1 => ["pfb"]
  | .trueType => ["ttf"]
  | .openType => ["otf"]
  | .encoding => ["enc"]
  | .subfont => ["sfd"]

/-- The class that a user names: blanks around it and the case of its letters do not count, and a hyphen
stands for an underscore. -/
def ofText (s : String) : Option ResourceClass :=
  let wanted := (Text.lower (Text.trim s)).map fun c => if c == '-' then '_' else c
  all.find? fun c => c.name == wanted || c.aliases.contains wanted

/-- What is said of a text that names no class. -/
def unknownMessage (s : String) : String := "unknown format class: " ++ s

/-- A file name ends in a suffix of the class, in capitals or small letters. -/
def hasSuffix (c : ResourceClass) (fileName : String) : Bool :=
  let lowered := (Text.lower fileName).toList
  c.suffixes.any fun s => s.toList.isSuffixOf lowered

/-- The file names tried for a name. A name with a suffix of the class is tried as it is; otherwise each
suffix is added in turn, and the bare name comes last. -/
def candidates (c : ResourceClass) (s : String) : List String :=
  if c.hasSuffix s then [s] else c.suffixes.map (s ++ ·) ++ [s]

theorem mem_all (c : ResourceClass) : c ∈ all := by cases c <;> decide

theorem ofKey_key (c : ResourceClass) : ofKey c.key = some c := by cases c <;> decide +kernel

theorem ofText_name (c : ResourceClass) : ofText c.name = some c := by cases c <;> decide +kernel

end ResourceClass

end Dvi
