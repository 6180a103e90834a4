import Interop.Data.JsonText

/-! The four kinds of text literals of TOML, and the blanks, line ends and comments between its
tokens. -/

namespace Interop.Toml

/-- Whether a character is a blank within a line. -/
def isSpace (c : Char) : Bool := c == ' ' || c == '\t'

/-- What follows the blanks at the front of a line. -/
def skipSpace (text : List Char) : List Char := text.dropWhile isSpace

/-- Whether a character may stand unescaped in texts and comments: no control character but a
tab. -/
def isPlain (c : Char) : Bool := c == '\t' || (0x20 ≤ c.toNat && c.toNat != 0x7F)

/-- What follows a line end at the front, if there is one. -/
def lineEnd? : List Char → Option (List Char)
  | '\n' :: rest => some rest
  | '\r' :: '\n' :: rest => some rest
  | _ => none

/-- What follows a line end, if the text does not end here. -/
def endOfLine? : List Char → Option (List Char)
  | [] => some []
  | rest => lineEnd? rest

/-- Passes over a comment if one stands at the front. -/
def skipComment : List Char → List Char
  | '#' :: rest => rest.dropWhile isPlain
  | rest => rest

/-- Passes over blanks, line ends and comments that a line end follows. -/
def skipLines : Nat → List Char → List Char
  | 0, text => text
  | fuel + 1, text =>
    let text := skipSpace text
    match lineEnd? (skipComment text) with
    | some rest => skipLines fuel rest
    | none => text

/-- The character that a hexadecimal escape writes, if it is a Unicode character. -/
def charOfHex (digits : List Char) : Option Char := do
  let n ← JsonText.hexNumber digits
  guard (n < 0xD800 || (0xDFFF < n && n < 0x110000))
  return Char.ofNat n

def readEscape : List Char → Option (Char × List Char)
  | 'b' :: rest => some ('\x08', rest)
  | 't' :: rest => some ('\t', rest)
  | 'n' :: rest => some ('\n', rest)
  | 'f' :: rest => some ('\x0c', rest)
  | 'r' :: rest => some ('\r', rest)
  | '"' :: rest => some ('"', rest)
  | '\\' :: rest => some ('\\', rest)
  | 'u' :: rest =>
    if rest.length < 4 then none else (charOfHex (rest.take 4)).map (·, rest.drop 4)
  | 'U' :: rest =>
    if (rest.take 8).length < 8 then none else (charOfHex (rest.take 8)).map (·, rest.drop 8)
  | _ => none

/-- Reads a text literal on one line, with escapes, behind its opening quote. -/
def readBasic : Nat → List Char → List Char → Option (String × List Char)
  | 0, _, _ => none
  | fuel + 1, reversed, text =>
    match text with
    | [] => none
    | '"' :: rest => some (String.ofList reversed.reverse, rest)
    | '\\' :: rest =>
      match readEscape rest with
      | some (c, rest) => readBasic fuel (c :: reversed) rest
      | none => none
    | c :: rest => if isPlain c then readBasic fuel (c :: reversed) rest else none

/-- Reads a text literal on one line, without escapes, behind its opening quote. -/
def readLiteral (text : List Char) : Option (String × List Char) :=
  let isBody (c : Char) := isPlain c && c != '\''
  match text.dropWhile isBody with
  | '\'' :: rest => some (String.ofList (text.takeWhile isBody), rest)
  | _ => none

/-- What follows a backslash at the end of a line: the next character that is neither a blank nor a
line end. -/
def skipFold? (text : List Char) : Option (List Char) :=
  (lineEnd? (skipSpace text)).map fun rest =>
    let rec go : List Char → List Char
      | '\n' :: rest => go rest
      | '\r' :: '\n' :: rest => go rest
      | ' ' :: rest => go rest
      | '\t' :: rest => go rest
      | rest => rest
    go rest

/-- Three to five quotes close a literal over several lines: up to two of them belong to it. -/
def closeQuotes (quote : Char) (reversed text : List Char) : Option (String × List Char) :=
  let count := min 5 (text.takeWhile (· == quote)).length
  if count < 3 then none
  else some (String.ofList (List.replicate (count - 3) quote ++ reversed).reverse, text.drop count)

/-- Reads a text literal over several lines behind its opening quotes; escapes only count between
double quotes. -/
def readLong (quote : Char) : Nat → List Char → List Char → Option (String × List Char)
  | 0, _, _ => none
  | fuel + 1, reversed, text =>
    match closeQuotes quote reversed text with
    | some closed => some closed
    | none =>
      match lineEnd? text with
      | some rest => readLong quote fuel ('\n' :: reversed) rest
      | none =>
        match text with
        | [] => none
        | c :: rest =>
          if c = '\\' ∧ quote = '"' then
            match skipFold? rest with
            | some rest => readLong quote fuel reversed rest
            | none =>
              match readEscape rest with
              | some (c, rest) => readLong quote fuel (c :: reversed) rest
              | none => none
          else if isPlain c then readLong quote fuel (c :: reversed) rest
          else none

def readText (text : List Char) : Option (String × List Char) :=
  let long (quote : Char) (rest : List Char) :=
    readLong quote (rest.length + 1) [] ((lineEnd? rest).getD rest)
  match text with
  | '"' :: '"' :: '"' :: rest => long '"' rest
  | '\'' :: '\'' :: '\'' :: rest => long '\'' rest
  | '"' :: rest => readBasic (rest.length + 1) [] rest
  | '\'' :: rest => readLiteral rest
  | _ => none

end Interop.Toml
