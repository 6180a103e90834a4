import Interop.Data.Json
import Interop.Data.Toml
import Interop.Description.Decode
import Interop.Files.Pattern
import Interop.Log
import Interop.RunError

/-! Loading descriptions from files. The ending of a file's name tells its format. -/

namespace Interop

namespace Description

/-- The description that a text in a format writes. -/
def ofText? (format : DataFormat) (read : String → Option Datum) (text : String) :
    Option Description :=
  (read text).bind (Description.ofDatum? format)

/-- The description in a file. -/
def load (tree : FileTree) (path : Path) : Except RunError Description := do
  let text ← (tree.readText path).mapError fun error =>
    .within s!"failed to read description: {path.text}" (.stated error.message)
  let expect (description : Option Description) : Except RunError Description :=
    match description with
    | some description => .ok description
    | none =>
      .error (.within s!"failed to parse description: {path.text}" (.stated "not a description"))
  match path.extension? with
  | some "json" => expect (ofText? .json Json.read text)
  | some "toml" => expect (ofText? .toml Toml.read text)
  | _ => .error (.stated s!"unknown description format: {path.text} (expected .json or .toml)")

def selectFiles (tree : FileTree) (inputs : List String) : Except RunError (List Path) :=
  (PathPattern.select tree inputs).mapError fun (text, mistake) =>
    .within s!"invalid input pattern: {text}" (.stated mistake.message)

/-- The descriptions in all files that some texts stand for; there has to be one. -/
def loadAll (tree : FileTree) (inputs : List String) : Logged RunError (List Description) := do
  let files ← Logged.ofExcept (selectFiles tree inputs)
  if files.isEmpty then
    Logged.fail (.stated ("no description files matched: " ++ ", ".intercalate inputs))
  else
    Logged.forEach files fun path => do
      Logged.note .debug s!"Loading {path.text}"
      Logged.ofExcept (load tree path)

end Description

end Interop
