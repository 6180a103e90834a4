import Interop.Text.Case

/-! Names of symbols: the native name and the managed name derived from it. -/

namespace Interop

def reservedWords : List String := [
  "abstract", "as", "base", "bool", "break", "byte", "case", "catch", "char", "checked",
  "class", "const", "continue", "decimal", "default", "delegate", "do", "double", "else",
  "enum", "event", "explicit", "extern", "false", "finally", "fixed", "float", "for",
  "foreach", "goto", "if", "implicit", "in", "int", "interface", "internal", "is", "lock",
  "long", "namespace", "new", "null", "object", "operator", "out", "override", "params",
  "private", "protected", "public", "readonly", "ref", "return", "sbyte", "sealed", "short",
  "sizeof", "stackalloc", "static", "string", "struct", "switch", "this", "throw", "true",
  "try", "typeof", "uint", "ulong", "unchecked", "unsafe", "ushort", "using", "virtual",
  "void", "volatile", "while"]

namespace Text

/-- Capitalises the first letter of every part between `_` and `-` and drops these marks; the flag
says whether the next letter starts a part. -/
def capitalizeParts : Bool → List Char → List Char
  | _, [] => []
  | atStart, c :: rest =>
    if c = '_' ∨ c = '-' then capitalizeParts true rest
    else (if atStart then upper c else [c]) ++ capitalizeParts false rest

/-- Lowercases the first letter. -/
def decapitalize : List Char → List Char
  | [] => []
  | c :: rest => lower c ++ rest

end Text

/-- The `PascalCase` form of a `snake_case` or `kebab-case` name. -/
def pascalCase (name : String) : String := String.ofList (Text.capitalizeParts true name.toList)

/-- The `camelCase` form of a `snake_case` or `kebab-case` name. -/
def camelCase (name : String) : String :=
  String.ofList (Text.decapitalize (Text.capitalizeParts true name.toList))

/-- A name that may stand where an identifier is needed: reserved words get an `@` in front. -/
def escapeReserved (name : String) : String :=
  if reservedWords.contains name then "@" ++ name else name

/-- The parts of a name before and after its first dot; without a dot there is no qualifier. -/
def splitQualified (name : String) : Option String × String :=
  match name.toList.dropWhile (· != '.') with
  | [] => (none, name)
  | _ :: rest => (some (String.ofList (name.toList.takeWhile (· != '.'))), String.ofList rest)

/-- The native name of a symbol and its name in the generated code. -/
structure SymbolName where
  native : String
  managed : String
deriving DecidableEq, Repr, Inhabited

namespace SymbolName

/-- The name of a type or callable. -/
def pascal (native : String) : SymbolName := ⟨native, pascalCase native⟩

/-- The name of a parameter. -/
def parameter (native : String) : SymbolName := ⟨native, escapeReserved (camelCase native)⟩

end SymbolName

end Interop
