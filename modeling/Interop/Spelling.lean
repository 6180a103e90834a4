import Interop.Text.Blank

/-! Native type spellings such as `const gchar*`, kept in one normal form: words are separated by
one space, and no blank stands before a pointer marker `*`. -/

namespace Interop

/-- A native type spelling in normal form. -/
structure Spelling where
  text : String
deriving DecidableEq, Hashable, Repr, Inhabited

namespace Spelling

/-- Words behind one another, each after a space unless it starts with a pointer marker. -/
def glue : List (List Char) → List Char
  | [] => []
  | word :: others =>
    word ++ match others with
      | [] => []
      | next :: _ => if next.head? = some '*' then glue others else ' ' :: glue others

/-- The normal form of a spelling. -/
def normalize (text : List Char) : List Char := glue (Text.words isBlank text)

/-- The spelling that a text writes, blanks normalised. -/
def ofString (text : String) : Spelling := ⟨String.ofList (normalize text.toList)⟩

def pointerDepth (s : Spelling) : Nat := s.text.toList.count '*'

def isPointer (s : Spelling) : Bool := 0 < s.pointerDepth

/-- The words of a spelling without its pointer markers, one space between two of them. -/
def base (s : Spelling) : String :=
  String.ofList (List.intercalate [' ']
    (Text.words (fun c => isBlank c || c == '*') s.text.toList))

/-- The spellings that stand for an untyped handle whether or not they carry a pointer marker. -/
def handleSpellings : List String := ["va_list", "GType", "gpointer", "gconstpointer"]

/-- Whether this is one of the spellings that always stand for an untyped handle. -/
def isAlwaysHandle (s : Spelling) : Bool := handleSpellings.contains s.text

/-- The spelling with `depth` more pointer markers behind it. -/
def addPointers (s : Spelling) (depth : Nat) : Spelling :=
  ofString (s.text ++ String.ofList (List.replicate depth '*'))

end Spelling

end Interop
