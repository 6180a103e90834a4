import Interop.Files.Path

/-! A tree of files as a run sees it from its working folder. A position is the list of names that
leads from the root to a file or folder. -/

namespace Interop

inductive FileError
  | notFound
  | alreadyExists
  | notAFolder
  | isAFolder
  | nameTooLong
  /-- The name holds the character that ends names in the system's interface. -/
  | nameWithNull
  /-- The content is not the encoding of a text. -/
  | notText
deriving DecidableEq, Repr, Inhabited

def FileError.message : FileError → String
  | notFound => "No such file or directory (os error 2)"
  | alreadyExists => "File exists (os error 17)"
  | notAFolder => "Not a directory (os error 20)"
  | isAFolder => "Is a directory (os error 21)"
  | nameTooLong => "File name too long (os error 36)"
  | nameWithNull => "file name contained an unexpected NUL byte"
  | notText => "stream did not contain valid UTF-8"

/-- What stands at a position. -/
inductive Entry
  | folder
  | file (content : ByteArray)
deriving BEq, Inhabited

/-- Files and folders by their positions, and the position of the working folder. -/
structure FileTree where
  entries : List (List String × Entry) := []
  home : List String := []
deriving Inhabited

namespace FileTree

/-- What stands at a position; the root is a folder. -/
def entry? (tree : FileTree) (position : List String) : Option Entry :=
  if position.isEmpty then some .folder else tree.entries.lookup position

/-- Puts an entry at a position in place of an earlier one. -/
def put (tree : FileTree) (position : List String) (entry : Entry) : FileTree :=
  { tree with
    entries := tree.entries.filter (·.1 != position) ++ [(position, entry)] }

/-- Puts an entry at a position and folders at those above it that have nothing yet. -/
def add (tree : FileTree) (position : List String) (entry : Entry) : FileTree :=
  let above := (List.range position.length).drop 1 |>.map (position.take ·)
  let missing := above.filter fun folder => (tree.entry? folder).isNone
  (missing.foldl (·.put · .folder) tree).put position entry

/-- The most bytes that a name may have. -/
def nameLimit : Nat := 255

/-- The most bytes that a path may have. -/
def pathLimit : Nat := 4095

/-- Goes on from a position by one piece of a path. -/
def step (tree : FileTree) (position : List String) (segment : String) :
    Except FileError (List String) :=
  match tree.entry? position with
  | none => .error .notFound
  | some (.file _) => .error .notAFolder
  | some .folder =>
    if segment = "" ∨ segment = "." then .ok position
    else if segment = ".." then .ok position.dropLast
    else if nameLimit < segment.utf8ByteSize then .error .nameTooLong
    else .ok (position ++ [segment])

/-- The position that a path leads to. Everything above it has to be a folder. -/
def locate (tree : FileTree) (path : Path) : Except FileError (List String) :=
  if path.text.isEmpty then .error .notFound
  else if path.text.toList.contains '\x00' then .error .nameWithNull
  else if pathLimit < path.text.utf8ByteSize then .error .nameTooLong
  else path.segments.foldlM tree.step (if path.isAbsolute then [] else tree.home)

/-- What a path leads to. -/
def find (tree : FileTree) (path : Path) : Except FileError Entry := do
  match tree.entry? (← tree.locate path) with
  | some entry => return entry
  | none => throw .notFound

def isEntry (tree : FileTree) (path : Path) : Bool := (tree.find path).toOption.isSome

def isFile (tree : FileTree) (path : Path) : Bool :=
  match tree.find path with
  | .ok (.file _) => true
  | _ => false

def isFolder (tree : FileTree) (path : Path) : Bool :=
  match tree.find path with
  | .ok .folder => true
  | _ => false

/-- The names in the folder that a path leads to, in ascending order. -/
def namesIn (tree : FileTree) (path : Path) : List String :=
  match tree.locate path with
  | .error _ => []
  | .ok folder =>
    let names := tree.entries.filterMap fun (position, _) =>
      match position.getLast? with
      | some name => if position.dropLast = folder then some name else none
      | none => none
    names.mergeSort fun a b => decide (a ≤ b)

/-- The text of the file that a path leads to. -/
def readText (tree : FileTree) (path : Path) : Except FileError String := do
  match ← tree.find path with
  | .folder => throw .isAFolder
  | .file content =>
    match String.fromUTF8? content with
    | some text => return text
    | none => throw .notText

/-- Writes a file, in place of an earlier one. -/
def writeText (tree : FileTree) (path : Path) (text : String) : Except FileError FileTree := do
  let position ← tree.locate path
  match tree.entry? position with
  | some .folder => throw .isAFolder
  | _ => return tree.put position (.file text.toUTF8)

/-- Makes the folder that a path leads to. Slashes at the end do not count. -/
def makeFolder (tree : FileTree) (path : Path) : Except FileError FileTree := do
  let trimmed := (path.text.toList.reverse.dropWhile (· == '/')).reverse
  let position ← tree.locate (if trimmed.isEmpty then path else ⟨String.ofList trimmed⟩)
  match tree.entry? position with
  | some _ => throw .alreadyExists
  | none => return tree.put position .folder

/-- Makes the folder that a path leads to, unless there is one. -/
def ensureFolder (tree : FileTree) (path : Path) : Except FileError FileTree :=
  match tree.makeFolder path with
  | .ok tree => .ok tree
  | .error error => if tree.isFolder path then .ok tree else .error error

/-- Makes the folder that a path leads to and those above it as far as they are missing; `depth` is
the number of folders that may be missing. -/
def ensureFolders (tree : FileTree) : Nat → Path → Except FileError FileTree
  | 0, _ => .ok tree
  | depth + 1, path =>
    if path.parts.isEmpty then .ok tree
    else
      match tree.ensureFolder path with
      | .ok tree => .ok tree
      | .error .notFound => do
        let tree ← match path.parent? with
          | some above => tree.ensureFolders depth above
          | none => .error .notFound
        tree.ensureFolder path
      | .error error => .error error

/-- Makes the folder that a path leads to with all those above it. -/
def makeFolders (tree : FileTree) (path : Path) : Except FileError FileTree :=
  tree.ensureFolders (path.parts.length + 1) path

end FileTree

end Interop
