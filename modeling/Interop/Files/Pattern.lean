import Interop.Files.FileTree
import Interop.Files.NamePattern

/-! Patterns of paths. Between two slashes stands the pattern of a name, or `**` for any folders. -/

namespace Interop

/-- What stands between two slashes of a pattern. -/
inductive PatternPart
  /-- Any number of folders below the one before, at least one. -/
  | anyFolders
  | name (tokens : List NameToken)
deriving DecidableEq, Repr, Inhabited

namespace PatternPart

/-- The part that a piece of a pattern writes. -/
def ofText (text : String) : Except NameToken.Mistake PatternPart :=
  if text = "**" then .ok .anyFolders
  else return .name (← NameToken.ofChars text.length text.toList)

/-- Whether a part stands for the name of an entry. -/
def matchesName : PatternPart → String → Bool
  | anyFolders, _ => false
  | name tokens, text => NameToken.matchAll tokens text.toList

end PatternPart

/-- A pattern of paths. -/
structure PathPattern where
  parts : List PatternPart
  /-- Whether only folders count, as for a pattern that ends with a slash. -/
  wantsFolder : Bool
  isAbsolute : Bool
deriving DecidableEq, Repr, Inhabited

namespace PathPattern

/-- The pattern that a text writes. -/
def ofText (text : String) : Except NameToken.Mistake PathPattern := do
  let path : Path := ⟨text⟩
  let segments := if path.isAbsolute then path.segments.drop 1 else path.segments
  let wantsFolder := text.toList.getLast? == some '/'
  let segments := if wantsFolder then segments.dropLast else segments
  return ⟨← segments.mapM PatternPart.ofText, wantsFolder, path.isAbsolute⟩

/-- Whether a character is special in patterns. -/
def isSpecial (c : Char) : Bool := c == '*' || c == '?' || c == '['

/-- The path in front of the first part of a pattern with a special character. -/
def start (text : String) : Path :=
  let segments := (Path.mk text).segments.takeWhile fun segment => !segment.toList.any isSpecial
  if segments.isEmpty then ⟨"."⟩ else ⟨"/".intercalate segments⟩

/-- A path one step further; what stands in the folder of the start is named without it. -/
def extend (path : Path) (name : String) : Path :=
  if path.parts = [.current] then ⟨name⟩ else path.join name

/-- The special names that a part stands for: only a part that starts with a dot does so. -/
def specialNames (part : PatternPart) : List String :=
  match part with
  | .name (.char '.' :: _) => ["..", "."].filter part.matchesName
  | _ => []

/-- A path as a result, if it may be one. -/
def result (tree : FileTree) (wantsFolder : Bool) (path : Path) : List Path :=
  if wantsFolder && !tree.isFolder path then [] else [path]

mutual

/-- The paths from a folder on that the parts stand for. The bound limits how far the search goes
down. -/
def search (tree : FileTree) (wantsFolder : Bool) : Nat → Path → List PatternPart → List Path
  | 0, _, _ => []
  | _, _, [] => []
  | bound + 1, path, .anyFolders :: others =>
    let others := others.dropWhile (· == .anyFolders)
    if tree.isFolder path then
      (tree.namesIn path).flatMap fun name =>
        let child := extend path name
        (if tree.isFolder child then
          (if others.isEmpty then [child] else [])
            ++ search tree wantsFolder bound child (.anyFolders :: others)
        else []) ++ (match others with
          | part :: rest =>
            if part.matchesName name then arrive tree wantsFolder bound child rest else []
          | [] => [])
    else []
  | bound + 1, path, .name tokens :: others =>
    match NameToken.literal? tokens with
    | some name =>
      let next := extend path name
      let isThere := if name = "." ∨ name = ".." then tree.isFolder path else tree.isEntry next
      if isThere then arrive tree wantsFolder bound next others else []
    | none =>
      if tree.isFolder path then
        ((specialNames (.name tokens)).flatMap fun name =>
            arrive tree wantsFolder bound (path.join name) others)
          ++ (tree.namesIn path).flatMap fun name =>
            if NameToken.matchAll tokens name.toList then
              arrive tree wantsFolder bound (extend path name) others
            else []
      else []

/-- Goes on from a path with the parts behind the one that it matched. -/
def arrive (tree : FileTree) (wantsFolder : Bool) : Nat → Path → List PatternPart → List Path
  | _, path, [] => result tree wantsFolder path
  | 0, _, _ => []
  | bound + 1, path, part :: others => search tree wantsFolder bound path (part :: others)

end

/-- The paths in a tree that a pattern stands for. Every step of the search uses up a part of the
pattern or goes down in the tree, so the bound is never reached. -/
def paths (tree : FileTree) (pattern : PathPattern) : List Path :=
  let bound := 2 * (pattern.parts.length + 1) * (tree.entries.length + 2)
  search tree pattern.wantsFolder bound ⟨if pattern.isAbsolute then "/" else "."⟩ pattern.parts

/-- The files that some texts stand for, in ascending order and each one once. A text that is the
path of a file stands for that file, every other text is a pattern. -/
def select (tree : FileTree) : List String → Except (String × NameToken.Mistake) (List Path)
  | texts => do
    let found ← texts.mapM fun text =>
      if tree.isFile ⟨text⟩ then .ok [⟨text⟩]
      else
        match ofText text with
        | .error mistake => .error (text, mistake)
        | .ok pattern => .ok ((pattern.paths tree).filter tree.isFile)
    return Path.sorted found.flatten

end PathPattern

end Interop
