/-! Text literals of JSON. A literal is read as UTF-16 units where it is escaped, so it may hold
half of a surrogate pair; such a literal is well formed but denotes no text. -/

namespace Interop.JsonText

def hexDigit (c : Char) : Option Nat :=
  if '0' ≤ c ∧ c ≤ '9' then some (c.toNat - 48)
  else if 'a' ≤ c ∧ c ≤ 'f' then some (c.toNat - 87)
  else if 'A' ≤ c ∧ c ≤ 'F' then some (c.toNat - 55)
  else none

def hexNumber (digits : List Char) : Option Nat :=
  digits.foldlM (fun n c => (hexDigit c).map (16 * n + ·)) 0

/-- The character that a one-character escape stands for. -/
def escaped : Char → Option Char
  | '"' => some '"'
  | '\\' => some '\\'
  | '/' => some '/'
  | 'b' => some '\x08'
  | 'f' => some '\x0c'
  | 'n' => some '\n'
  | 'r' => some '\r'
  | 't' => some '\t'
  | _ => none

/-- What has been read of a literal: its characters, last first, a leading surrogate that waits for
its partner, and whether every surrogate so far had one. -/
structure Progress where
  reversed : List Char := []
  lead : Option Nat := none
  paired : Bool := true

namespace Progress

def char (p : Progress) (c : Char) : Progress :=
  ⟨c :: p.reversed, none, p.paired && p.lead.isNone⟩

/-- One more UTF-16 unit. -/
def unit (p : Progress) (u : Nat) : Progress :=
  if 0xD800 ≤ u ∧ u ≤ 0xDBFF then ⟨p.reversed, some u, p.paired && p.lead.isNone⟩
  else if 0xDC00 ≤ u ∧ u ≤ 0xDFFF then
    match p.lead with
    | some lead =>
      ⟨Char.ofNat (0x10000 + (lead - 0xD800) * 0x400 + (u - 0xDC00)) :: p.reversed, none, p.paired⟩
    | none => ⟨p.reversed, none, false⟩
  else p.char (Char.ofNat u)

/-- The text of a finished literal, if it denotes one. -/
def finish (p : Progress) : Option String :=
  if p.paired && p.lead.isNone then some (String.ofList p.reversed.reverse) else none

end Progress

/-- Reads a literal behind its opening quote: the text, if it denotes one, and what follows. -/
def read (p : Progress) : List Char → Option (Option String × List Char)
  | [] => none
  | '"' :: rest => some (p.finish, rest)
  | '\\' :: 'u' :: a :: b :: c :: d :: rest =>
    match hexNumber [a, b, c, d] with
    | some u => read (p.unit u) rest
    | none => none
  | '\\' :: c :: rest =>
    match escaped c with
    | some d => read (p.char d) rest
    | none => none
  | c :: rest => if c.toNat < 0x20 then none else read (p.char c) rest

/-- A hexadecimal digit in lower case. -/
def hexChar (n : Nat) : Char := Char.ofNat (if n < 10 then 48 + n else 87 + n)

/-- The written form of one character: quotes, backslashes and control characters are escaped. -/
def escape (c : Char) : List Char :=
  match c with
  | '"' => ['\\', '"']
  | '\\' => ['\\', '\\']
  | '\x08' => ['\\', 'b']
  | '\x0c' => ['\\', 'f']
  | '\n' => ['\\', 'n']
  | '\r' => ['\\', 'r']
  | '\t' => ['\\', 't']
  | c =>
    if c.toNat < 0x20 then ['\\', 'u', '0', '0', hexChar (c.toNat / 16), hexChar (c.toNat % 16)]
    else [c]

/-- The literal that denotes a text. -/
def write (s : String) : String := "\"" ++ String.ofList (s.toList.flatMap escape) ++ "\""

end Interop.JsonText
