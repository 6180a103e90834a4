import Interop.CommandLine.Run

/-! The program. It reads the files that a command line may be about, runs the command line on them,
prints what the run prints and writes the files that the run has changed. -/

namespace Interop.Program

def positionText (position : List String) : String := "/" ++ "/".intercalate position

/-- Reads what stands at a position, with everything below it, as far as there is anything. -/
partial def readEntries (position : List String) (tree : FileTree) : IO FileTree := do
  let path := (← IO.currentDir) / positionText position
  if !(← path.pathExists) then return tree
  if ← path.isDir then
    let mut tree := tree.add position .folder
    for entry in ← path.readDir do
      tree ← readEntries (position ++ [entry.fileName]) tree
    return tree
  else return tree.add position (.file (← IO.FS.readBinFile path))

/-- The position that a path leads to, whatever stands there. -/
def positionOf (home : List String) (path : Path) : List String :=
  path.parts.foldl (fun position part =>
    match part with
    | .root => []
    | .current => position
    | .parent => position.dropLast
    | .name name => position ++ [name]) home

/-- Reads the files that some paths and patterns may be about. -/
def readFiles (tree : FileTree) (texts : List String) : IO FileTree :=
  texts.foldlM (fun tree text => readEntries (positionOf tree.home (PathPattern.start text)) tree)
    tree

/-- The paths and patterns that a command is about. -/
def pathsOf : Command → List String
  | .generate inputs configuration settings =>
    inputs ++ [configuration.getD Settings.fileName, settings.output.getD Running.defaultOutput]
  | .classify _ => []
  | .graph inputs _ => inputs

/-- The folder of the output that the configuration of a command names. -/
def configuredOutput (tree : FileTree) : Command → List String
  | .generate _ configuration _ =>
    match (Settings.find tree configuration (Running.homePath tree)).outcome with
    | .ok settings => settings.output.toList
    | .error _ => []
  | _ => []

/-- Writes what a run has changed. -/
def writeChanges (before after : FileTree) : IO Unit := do
  let root ← IO.currentDir
  for (position, entry) in after.entries do
    if before.entry? position != some entry then
      match entry with
      | .folder => IO.FS.createDirAll (root / positionText position)
      | .file content => IO.FS.writeBinFile (root / positionText position) content

def run (words : List String) : IO UInt32 := do
  let outputVariable ← IO.getEnv Request.outputVariable
  let home := positionOf [] ⟨(← IO.currentDir).toString⟩
  let start : FileTree := { home }
  let tree ← match Request.ofWords words outputVariable with
    | some (.run invocation) => do
      let tree ← readFiles (start.add home .folder) (pathsOf invocation.command)
      readFiles tree (configuredOutput tree invocation.command)
    | _ => pure start
  let outcome := runWords words outputVariable tree
  IO.print outcome.stdout
  IO.eprint outcome.stderr
  writeChanges tree outcome.tree
  return outcome.exitCode.toUInt32

end Interop.Program

def main (words : List String) : IO UInt32 := Interop.Program.run words
