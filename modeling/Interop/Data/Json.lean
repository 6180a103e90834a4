import Interop.Data.Datum
import Interop.Data.JsonText

/-! Reading and writing JSON. A document is one value between blanks; nothing of JSON is relaxed. -/

namespace Interop.Json

/-- Whether a character is a blank of JSON. -/
def isSpace (c : Char) : Bool := c == ' ' || c == '\t' || c == '\n' || c == '\r'

/-- What follows the leading blanks. -/
def skipSpace (text : List Char) : List Char := text.dropWhile isSpace

/-- The digits at the front and what follows them. -/
def digits (text : List Char) : List Char × List Char := text.span Char.isDigit

/-- The number that decimal digits write. -/
def decimal (digits : List Char) : Nat := digits.foldl (fun n c => 10 * n + (c.toNat - 48)) 0

/-- Passes over a fraction if there is one; the flag tells which. -/
def skipFraction : List Char → Option (Bool × List Char)
  | '.' :: rest =>
    match digits rest with
    | ([], _) => none
    | (_, rest) => some (true, rest)
  | rest => some (false, rest)

/-- Passes over an exponent if there is one; the flag tells which. -/
def skipExponent : List Char → Option (Bool × List Char)
  | c :: rest =>
    if c = 'e' ∨ c = 'E' then
      let unsigned := match rest with
        | '+' :: rest => rest
        | '-' :: rest => rest
        | rest => rest
      match digits unsigned with
      | ([], _) => none
      | (_, rest) => some (true, rest)
    else some (false, c :: rest)
  | [] => some (false, [])

/-- Reads a number behind its sign. Without fraction and exponent it is an integer, but `-0` is
none. -/
def readNumber (negative : Bool) (text : List Char) : Option (Datum × List Char) := do
  let (whole, rest) := digits text
  guard (!whole.isEmpty && (whole.length == 1 || whole.head? != some '0'))
  let (hasFraction, rest) ← skipFraction rest
  let (hasExponent, rest) ← skipExponent rest
  let n := decimal whole
  let value : Datum :=
    if hasFraction || hasExponent || (negative && n == 0) then .foreign
    else .integer (if negative then -(n : Int) else n)
  return (value, rest)

/-- Passes over a fixed word. -/
def readWord (word : List Char) (value : Datum) (text : List Char) : Option (Datum × List Char) :=
  if word.isPrefixOf text then some (value, text.drop word.length) else none

/-- A table of the members read; if one of their names denotes no text, neither does the table. -/
def tableOf (members : List (Option String × Datum)) : Datum :=
  match members.mapM fun m => m.1.map fun name => (name, m.2) with
  | some members => .table members
  | none => .foreign

mutual

/-- Reads one value. -/
def readValue : Nat → List Char → Option (Datum × List Char)
  | 0, _ => none
  | fuel + 1, text =>
    match skipSpace text with
    | [] => none
    | '"' :: rest => do
      let (s, rest) ← JsonText.read {} rest
      return ((s.map .text).getD .foreign, rest)
    | '[' :: rest =>
      match skipSpace rest with
      | ']' :: rest => some (.list [], rest)
      | rest => readItems fuel [] rest
    | '\x7b' :: rest =>
      match skipSpace rest with
      | '\x7d' :: rest => some (.table [], rest)
      | rest => readMembers fuel [] rest
    | '-' :: rest => readNumber true rest
    | 'n' :: rest => readWord ['u', 'l', 'l'] .null rest
    | 't' :: rest => readWord ['r', 'u', 'e'] (.boolean true) rest
    | 'f' :: rest => readWord ['a', 'l', 's', 'e'] (.boolean false) rest
    | rest => readNumber false rest

/-- Reads the items of a list, behind those read already, up to its end. -/
def readItems : Nat → List Datum → List Char → Option (Datum × List Char)
  | 0, _, _ => none
  | fuel + 1, before, text =>
    match readValue fuel text with
    | none => none
    | some (item, rest) =>
      match skipSpace rest with
      | ',' :: rest => readItems fuel (item :: before) rest
      | ']' :: rest => some (.list (item :: before).reverse, rest)
      | _ => none

/-- Reads the members of a table, behind those read already, up to its end. -/
def readMembers : Nat → List (Option String × Datum) → List Char → Option (Datum × List Char)
  | 0, _, _ => none
  | fuel + 1, before, text =>
    match skipSpace text with
    | '"' :: rest =>
      match JsonText.read {} rest with
      | none => none
      | some (name, rest) =>
        match skipSpace rest with
        | ':' :: rest =>
          match readValue fuel rest with
          | none => none
          | some (value, rest) =>
            match skipSpace rest with
            | ',' :: rest => readMembers fuel ((name, value) :: before) rest
            | '\x7d' :: rest => some (tableOf ((name, value) :: before).reverse, rest)
            | _ => none
        | _ => none
    | _ => none

end

/-- The value that a document holds, if the document is well formed. -/
def read (text : String) : Option Datum := do
  let characters := text.toList
  let (value, rest) ← readValue (2 * characters.length + 2) characters
  guard (skipSpace rest).isEmpty
  return value

mutual

def compact : Datum → String
  | .null => "null"
  | .foreign => "null"
  | .boolean b => if b then "true" else "false"
  | .integer n => toString n
  | .text s => JsonText.write s
  | .list items => "[" ++ ",".intercalate (compactItems items) ++ "]"
  | .table members => "\x7b" ++ ",".intercalate (compactMembers members) ++ "\x7d"

def compactItems : List Datum → List String
  | [] => []
  | item :: rest => compact item :: compactItems rest

def compactMembers : List (String × Datum) → List String
  | [] => []
  | (name, value) :: rest => (JsonText.write name ++ ":" ++ compact value) :: compactMembers rest

end

/-- The parts of a list or table on lines of their own, indented by `depth` steps of two spaces. -/
def block (opening closing : String) (depth : Nat) (parts : List String) : String :=
  if parts.isEmpty then opening ++ closing
  else
    let line (n : Nat) := "\n" ++ String.ofList (List.replicate (2 * n) ' ')
    let inner := line (depth + 1)
    opening ++ inner ++ ("," ++ inner).intercalate parts ++ line depth ++ closing

mutual

/-- A value over several lines, every item and every member on a line of its own. -/
def pretty (depth : Nat) : Datum → String
  | .null => "null"
  | .foreign => "null"
  | .boolean b => if b then "true" else "false"
  | .integer n => toString n
  | .text s => JsonText.write s
  | .list items => block "[" "]" depth (prettyItems (depth + 1) items)
  | .table members => block "\x7b" "\x7d" depth (prettyMembers (depth + 1) members)

def prettyItems (depth : Nat) : List Datum → List String
  | [] => []
  | item :: rest => pretty depth item :: prettyItems depth rest

def prettyMembers (depth : Nat) : List (String × Datum) → List String
  | [] => []
  | (name, value) :: rest =>
    (JsonText.write name ++ ": " ++ pretty depth value) :: prettyMembers depth rest

end

end Interop.Json
