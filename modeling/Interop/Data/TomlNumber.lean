import Interop.Data.Datum
import Interop.Data.JsonText

/-! Numbers, dates and times of TOML. Of these only integers are used by any reader of the data, so
fractional numbers are read as foreign values, and a date or time as a table without members. -/

namespace Interop.Toml

/-- Reads digits between which single underscores may stand. -/
def readDigits (isDigit : Char → Bool) (text : List Char) : Option (List Char × List Char) :=
  let run := text.takeWhile fun c => isDigit c || c == '_'
  let rec wellFormed : Bool → List Char → Bool
    | afterDigit, [] => afterDigit
    | afterDigit, c :: rest =>
      if c == '_' then afterDigit && wellFormed false rest else wellFormed true rest
  if wellFormed false run then some (run.filter (· != '_'), text.drop run.length) else none

/-- Passes over a sign; the flag tells whether it was a minus. -/
def readSign : List Char → Bool × List Char
  | '+' :: rest => (false, rest)
  | '-' :: rest => (true, rest)
  | rest => (false, rest)

/-- The number that digits write in a base. -/
def numberOf (base : Nat) (digits : List Char) : Nat :=
  digits.foldl (fun n c => base * n + (JsonText.hexDigit c).getD 0) 0

/-- An integer, if it fits into 64 bits with a sign. -/
def integer? (n : Int) : Option Datum :=
  if -0x8000000000000000 ≤ n ∧ n < 0x8000000000000000 then some (.integer n) else none

/-- Reads the whole part of a decimal number: a zero, or digits that start with no zero. -/
def readWhole (text : List Char) : Option (List Char × List Char) :=
  match text with
  | '0' :: rest => some (['0'], rest)
  | _ => readDigits Char.isDigit text

def readInteger (text : List Char) : Option (Datum × List Char) := do
  let based (base : Nat) (isDigit : Char → Bool) (rest : List Char) := do
    let (digits, rest) ← readDigits isDigit rest
    return (← integer? (numberOf base digits), rest)
  match text with
  | '0' :: 'x' :: rest => based 16 (fun c => (JsonText.hexDigit c).isSome) rest
  | '0' :: 'o' :: rest => based 8 (fun c => '0' ≤ c && c ≤ '7') rest
  | '0' :: 'b' :: rest => based 2 (fun c => c == '0' || c == '1') rest
  | _ =>
    let (negative, rest) := readSign text
    let (digits, rest) ← readWhole rest
    let n : Int := numberOf 10 digits
    return (← integer? (if negative then -n else n), rest)

/-- Whether `digits · 10 ^ exponent` is too large for a 64-bit floating-point number. -/
def isHuge (digits : List Char) (exponent : Int) : Bool :=
  let n := numberOf 10 digits
  let size := (Nat.toDigits 10 n).length + exponent
  n != 0 && (310 < size || (300 < size &&
    (Nat.pow 2 1024 - Nat.pow 2 970) * Nat.pow 10 (-exponent).toNat
      ≤ n * Nat.pow 10 exponent.toNat))

def readFloat (text : List Char) : Option (Datum × List Char) := do
  let (negative, rest) := readSign text
  match rest with
  | 'i' :: 'n' :: 'f' :: rest => return (.foreign, rest)
  | 'n' :: 'a' :: 'n' :: rest => return (.foreign, rest)
  | _ =>
    let (whole, rest) ← readWhole rest
    let readExponent (rest : List Char) : Option (Int × List Char) := do
      let (negative, rest) := readSign rest
      let (digits, rest) ← readDigits Char.isDigit rest
      let n : Int := numberOf 10 digits
      return (if negative then -n else n, rest)
    let (places, rest, hasPlaces) ← match rest with
      | '.' :: rest => (readDigits Char.isDigit rest).map fun (places, rest) => (places, rest, true)
      | _ => some ([], rest, false)
    let (exponent, rest, hasExponent) ← match rest with
      | 'e' :: rest => (readExponent rest).map fun (n, rest) => (n, rest, true)
      | 'E' :: rest => (readExponent rest).map fun (n, rest) => (n, rest, true)
      | _ => some (0, rest, false)
    guard (hasPlaces || hasExponent)
    guard (negative || !isHuge (whole ++ places) (exponent - places.length))
    return (.foreign, rest)

/-- Reads a number of exactly two digits within bounds. -/
def readTwo (low high : Nat) : List Char → Option (Nat × List Char)
  | a :: b :: rest =>
    let n := numberOf 10 [a, b]
    if a.isDigit && b.isDigit && low ≤ n && n ≤ high then some (n, rest) else none
  | _ => none

/-- Passes over one fixed character. -/
def readMark (mark : Char) : List Char → Option (List Char)
  | c :: rest => if c = mark then some rest else none
  | [] => none

def daysOfMonth (year month : Nat) : Nat :=
  if month = 2 then
    if (year % 4 = 0 ∧ year % 100 ≠ 0) ∨ year % 400 = 0 then 29 else 28
  else if month = 4 ∨ month = 6 ∨ month = 9 ∨ month = 11 then 30
  else 31

/-- Passes over a date. -/
def skipDate (text : List Char) : Option (List Char) := do
  let (first, rest) ← readTwo 0 99 text
  let (second, rest) ← readTwo 0 99 rest
  let (month, rest) ← readTwo 1 12 (← readMark '-' rest)
  let (_, rest) ← readTwo 1 (daysOfMonth (100 * first + second) month) (← readMark '-' rest)
  return rest

/-- Passes over a time of day. -/
def skipTime (text : List Char) : Option (List Char) := do
  let (_, rest) ← readTwo 0 23 text
  let (_, rest) ← readTwo 0 59 (← readMark ':' rest)
  let (_, rest) ← readTwo 0 60 (← readMark ':' rest)
  match rest with
  | '.' :: rest =>
    guard (rest.head?.any Char.isDigit)
    return rest.dropWhile Char.isDigit
  | _ => return rest

/-- Passes over the distance from universal time, if one is given. -/
def skipOffset (text : List Char) : List Char :=
  let hours (rest : List Char) : Option (List Char) := do
    let (_, rest) ← readTwo 0 23 rest
    let (_, rest) ← readTwo 0 59 (← readMark ':' rest)
    return rest
  match text with
  | 'Z' :: rest => rest
  | 'z' :: rest => rest
  | '+' :: rest => (hours rest).getD text
  | '-' :: rest => (hours rest).getD text
  | _ => text

/-- Passes over a date, a time, or both. -/
def skipDateTime (text : List Char) : Option (List Char) :=
  match skipDate text with
  | none => skipTime text
  | some rest =>
    match rest with
    | c :: afterMark =>
      if c = 'T' ∨ c = 't' ∨ c = ' ' then
        match skipTime afterMark with
        | some rest => some (skipOffset rest)
        | none => some (c :: afterMark)
      else some (c :: afterMark)
    | [] => some []

/-- Reads a number, a date or a time. -/
def readNumeric (text : List Char) : Option (Datum × List Char) :=
  match skipDateTime text with
  | some rest => some (.table [], rest)
  | none =>
    match readFloat text with
    | some read => some read
    | none => readInteger text

end Interop.Toml
