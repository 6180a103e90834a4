import Interop.Data.TomlText
import Interop.Data.TomlNumber
import Interop.Data.TomlTable

/-! Reading TOML documents. -/

namespace Interop.Toml

/-- How deep values and keys may nest; a depth of this number is too much. -/
def depthLimit : Nat := 80

/-- Whether a character may stand in a key without quotes. -/
def isBareKey (c : Char) : Bool := c.isAlphanum || c == '_' || c == '-'

/-- Reads one part of a key. -/
def readKeyPart (text : List Char) : Option (String × List Char) :=
  match text with
  | '"' :: rest => readBasic (rest.length + 1) [] rest
  | '\'' :: rest => readLiteral rest
  | _ =>
    let name := text.takeWhile isBareKey
    if name.isEmpty then none else some (String.ofList name, text.drop name.length)

/-- Reads a key of parts between dots, with the blanks around it. -/
def readKey : Nat → List String → List Char → Option (List String × List Char)
  | 0, _, _ => none
  | fuel + 1, reversed, text => do
    let (name, rest) ← readKeyPart (skipSpace text)
    match skipSpace rest with
    | '.' :: rest => readKey fuel (name :: reversed) rest
    | rest => return ((name :: reversed).reverse, rest)

/-- Reads a key of fewer parts than the depth limit. -/
def readShortKey (text : List Char) : Option (List String × List Char) :=
  readKey (depthLimit - 1) [] text

mutual

/-- Reads one value. -/
def readValue : Nat → Nat → List Char → Option (Datum × List Char)
  | 0, _, _ => none
  | fuel + 1, depth, text =>
    match text with
    | [] => none
    | '"' :: _ => (readText text).map fun (s, rest) => (.text s, rest)
    | '\'' :: _ => (readText text).map fun (s, rest) => (.text s, rest)
    | '[' :: rest => if depth + 1 < depthLimit then readItems fuel (depth + 1) [] rest else none
    | '\x7b' :: rest =>
      if depth + 1 < depthLimit then
        match skipSpace rest with
        | '\x7d' :: rest => some (.table [], rest)
        | rest => readInline fuel (depth + 1) [] rest
      else none
    | 't' :: 'r' :: 'u' :: 'e' :: rest => some (.boolean true, rest)
    | 'f' :: 'a' :: 'l' :: 's' :: 'e' :: rest => some (.boolean false, rest)
    | _ => readNumeric text

/-- Reads the items of a list, behind those read already, up to its end. -/
def readItems : Nat → Nat → List Datum → List Char → Option (Datum × List Char)
  | 0, _, _, _ => none
  | fuel + 1, depth, before, text =>
    match skipLines text.length text with
    | ']' :: rest => some (.list before.reverse, rest)
    | rest =>
      match readValue fuel depth rest with
      | none => none
      | some (item, rest) =>
        match skipLines rest.length rest with
        | ',' :: rest => readItems fuel depth (item :: before) rest
        | ']' :: rest => some (.list (item :: before).reverse, rest)
        | _ => none

/-- Reads the members of a table on one line, behind those read already, up to its end. -/
def readInline : Nat → Nat → Members → List Char → Option (Datum × List Char)
  | 0, _, _, _ => none
  | fuel + 1, depth, members, text =>
    match readShortKey text with
    | some (key, '=' :: rest) =>
      match readValue fuel depth (skipSpace rest) with
      | none => none
      | some (value, rest) =>
        match members.insertKey key value .defined with
        | none => none
        | some members =>
          match skipSpace rest with
          | ',' :: rest => readInline fuel depth members rest
          | '\x7d' :: rest => some (.table (datumOfMembers members), rest)
          | _ => none
    | _ => none

end

/-- Passes over what may stand behind a header or a value on its line. -/
def finishLine (text : List Char) : Option (List Char) := endOfLine? (skipComment (skipSpace text))

/-- Reads the lines of a document, given the header above them and whether that opened an element
of a list of tables. -/
def readLines : Nat → List String → Members → List Char → Option Members
  | 0, _, _, _ => none
  | fuel + 1, header, members, text =>
    match skipSpace text with
    | [] => some members
    | '#' :: rest =>
      match endOfLine? (rest.dropWhile isPlain) with
      | some rest => readLines fuel header members rest
      | none => none
    | '\n' :: rest => readLines fuel header members rest
    | '\r' :: '\n' :: rest => readLines fuel header members rest
    | '[' :: '[' :: rest =>
      match readShortKey rest with
      | some (header, ']' :: ']' :: rest) =>
        match members.openElement header, finishLine rest with
        | some members, some rest => readLines fuel header members rest
        | _, _ => none
      | _ => none
    | '[' :: rest =>
      match readShortKey rest with
      | some (header, ']' :: rest) =>
        match members.openTable header, finishLine rest with
        | some members, some rest => readLines fuel header members rest
        | _, _ => none
      | _ => none
    | rest =>
      match readShortKey rest with
      | some (key, '=' :: rest) =>
        match readValue (2 * rest.length + 2) 0 (skipSpace rest) with
        | none => none
        | some (value, rest) =>
          match members.update false (fun origin inner => inner.insertKey key value origin) header
              .defined, finishLine rest with
          | some members, some rest => readLines fuel header members rest
          | _, _ => none
      | _ => none

/-- The table that a document holds, if the document is well formed. A byte order mark may stand in
front. -/
def read (text : String) : Option Datum :=
  let characters := match text.toList with
    | '\ufeff' :: rest => rest
    | characters => characters
  (readLines (characters.length + 1) [] [] characters).map fun members =>
    .table (datumOfMembers members)

end Interop.Toml
