import Dvi.Tool.Command

/-!
# The command line

The first argument names a tool, the others are for that tool. Files that the arguments and the configuration
name are read before the run, and the output file is written after it. What a searched directory holds is
taken from the listing `ls-R` in it, or in the working directory. One worker does all the work, so no number of them is
too large.
-/

namespace Dvi.Main

/-- The variables on which a run depends. -/
def environmentVariables : List String :=
  ResourceClass.all.map ResourceClass.environmentVariable ++ ["DVIREAD_CONFIG_DIR", "XDG_CONFIG_HOME", "HOME"]

/-- The values of the variables that are set. -/
def environment : IO (List (String × String)) :=
  environmentVariables.filterMapM fun name => do return (← IO.getEnv name).map fun value => (name, value)

/-- A tree with nothing but the working directory. -/
def startingTree (directory : String) : FileTree :=
  let names := (Path.pieces directory.toList).filter (!Path.isVoid ·)
  let t : FileTree := { workingDirectory := names.map String.ofList }
  t.add ⟨"."⟩ none

/-- The tree with a file, if that can be read. -/
def addFile (t : FileTree) (p : Path) : IO FileTree := do
  try return t.add p (some (← IO.FS.readBinFile p.text))
  catch _ => return t

/-- The tree with what a database lists. Only metrics and font maps are ever read; of other files it is
enough that they are there. -/
def addListed (t : FileTree) (listing : Path) : IO FileTree := do
  let t ← addFile t listing
  match FileDatabase.load t listing with
  | .error _ => return t
  | .ok d =>
    let located : List ResourceClass := [.virtualFont, .type1, .trueType, .openType, .encoding, .subfont]
    d.paths.foldlM
      (fun t p =>
        if located.any (·.hasSuffix p.text) then return t.add p (some .empty) else addFile t p) t

/-- The files that a run looks at. -/
def snapshot (needs : Tool.Needs) (environment : String → Option String) : IO FileTree := do
  let directory := (← IO.getEnv "PWD").getD "/"
  let mut t := startingTree directory
  let config := needs.search.config.toList ++
    (Tool.configDirectory environment).toList.map (·.join Tool.configFile)
  for p in config ++ needs.inputs do
    t ← addFile t p
  if let some p := needs.outfile.bind Path.parent then
    t := t.add p none
  if let .ok c := needs.search.configuration { environment, files := t, workers := .unlimited } then
    for listing in Path.mk "ls-R" :: c.databases ++ c.directories.map (·.join ⟨"ls-R"⟩) do
      t ← addListed t listing
  return t

/-- Writes the output file as it is after a run. -/
def writeOutfile (outfile : Option Path) (files : FileTree) : IO Unit := do
  if let some p := outfile then
    if let .ok content := files.read p then
      IO.FS.writeBinFile p.text content

end Dvi.Main

/-- Runs a tool. -/
def main (arguments : List String) : IO UInt32 := do
  let tool :: arguments := arguments | IO.eprintln "usage: dvi TOOL [ARGUMENTS]"; return 2
  let known ← Dvi.Main.environment
  let environment := fun name => known.lookup name
  let needs := Dvi.Tool.Needs.ofArguments tool arguments
  let files ← Dvi.Main.snapshot needs environment
  match Dvi.Tool.run tool arguments { environment, files, workers := .unlimited } with
  | none =>
    IO.eprintln ("unknown tool: " ++ tool)
    return 2
  | some r =>
    Dvi.Main.writeOutfile needs.outfile r.files
    IO.print r.output
    IO.eprint r.diagnostics
    return r.exit.toUInt32
