import Interop.Data.Json
import Interop.Files.FileTree
import Interop.Report

/-! Writing the documents of a report into a folder. -/

namespace Interop

/-- A computation that changes files; what was written before a failure stays. -/
abbrev Filing := ExceptT RunError (StateM FileTree)

/-- Changes the files, if that is possible. -/
def Filing.change (context : String) (f : FileTree → Except FileError FileTree) : Filing Unit := do
  match f (← getThe FileTree) with
  | .ok tree => set tree
  | .error error => throw (.within context (.stated error.message))

namespace Report

/-- Writes one document into a folder. -/
def writeDocument (folder : Path) (name : String) (document : Datum) : Filing Path := do
  let path := folder.join name
  Filing.change s!"failed to write {path.text}" (·.writeText path (Json.pretty 0 document))
  return path

/-- Writes the documents of a report into a folder, which is made if it is missing. The result are
the paths of the documents. -/
def write (report : Report) (folder : Path) : Filing (List Path) := do
  Filing.change s!"failed to create output directory: {folder.text}" (·.makeFolders folder)
  report.documents.mapM fun (name, document) => writeDocument folder name document

end Report

end Interop
