import Interop.Data.Reading
import Interop.Data.Toml
import Interop.Files.FileTree
import Interop.Report

/-! Settings of a run, from a file or from the command line. A setting that is absent leaves the one
below it as it is. -/

namespace Interop

structure Settings where
  bestEffort : Option Bool := none
  mandatory : List String := []
  namespaces : List String := []
  jobs : Option Nat := none
  /-- The folder that the documents are written to. -/
  output : Option String := none
deriving DecidableEq, Repr, Inhabited

namespace Settings

/-- The name of the file with the settings of a folder. -/
def fileName : String := "girbind.toml"

def memberNames : List String := ["best-effort", "mandatory", "namespaces", "jobs", "output"]

/-- Reads the settings for generation. -/
def ofGenerateDatum? (format : DataFormat) (d : Datum) : Option Settings := do
  let get ← d.structure? format memberNames
  return {
    bestEffort := ← Datum.optional? Datum.boolean? (get "best-effort"),
    mandatory := ← Datum.list? Datum.text? (get "mandatory"),
    namespaces := ← Datum.list? Datum.text? (get "namespaces"),
    jobs := ← Datum.optional? Datum.natural? (get "jobs"),
    output := ← Datum.optional? Datum.text? (get "output") }

def ofDatum? (format : DataFormat) (d : Datum) : Option Settings := do
  let get ← d.structure? format ["generate"]
  match get "generate" with
  | none => return {}
  | some d => ofGenerateDatum? format d

def toDatum (s : Settings) : Datum :=
  .table [("generate", .table [
    ("best-effort", .optional .boolean s.bestEffort),
    ("mandatory", .texts s.mandatory),
    ("namespaces", .texts s.namespaces),
    ("jobs", .optional .natural s.jobs),
    ("output", .optional .text s.output)])]

def load (tree : FileTree) (path : Path) : Except RunError Settings := do
  let text ← (tree.readText path).mapError fun error =>
    .within s!"failed to read config file: {path.text}" (.stated error.message)
  match (Toml.read text).bind (ofDatum? .toml) with
  | some settings => return settings
  | none =>
    throw (.within s!"failed to parse config file: {path.text}" (.stated "not a configuration"))

/-- The settings in a file that may be missing or unusable. -/
def loadOrDefault (tree : FileTree) (path : Path) : Logged RunError Settings :=
  if tree.isEntry path then
    match load tree path with
    | .ok settings => return settings
    | .error error => do
      Logged.note .warn s!"Failed to load config from {path.text}: {error.message}"
      return {}
  else return {}

/-- The settings in the file that is named, or else in the file of a folder, which may be missing or
unusable. -/
def find (tree : FileTree) (named : Option String) (folder : Path) : Logged RunError Settings :=
  match named with
  | some path => Logged.ofExcept (load tree ⟨path⟩)
  | none => loadOrDefault tree (folder.join fileName)

def merge (below above : Settings) : Settings where
  bestEffort := above.bestEffort <|> below.bestEffort
  mandatory := if above.mandatory.isEmpty then below.mandatory else above.mandatory
  namespaces := if above.namespaces.isEmpty then below.namespaces else above.namespaces
  jobs := above.jobs <|> below.jobs
  output := above.output <|> below.output

def options (s : Settings) : Options where
  bestEffort := s.bestEffort.getD true
  mandatory := s.mandatory
  namespaces := s.namespaces
  jobs := s.jobs

end Settings

end Interop
