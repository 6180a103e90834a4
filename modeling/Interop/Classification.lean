import Interop.Spelling

/-! Classification of native spellings: a fixed table maps a base spelling, together with whether
it carries a pointer marker, to the category that decides how values of the type are marshalled. -/

namespace Interop

/-- The primitive kinds that have a direct interop representation. -/
inductive PrimitiveKind
  | void
  | bool
  | i8
  | u8
  | i16
  | u16
  | i32
  | u32
  | i64
  | u64
  | f32
  | f64
deriving DecidableEq, Hashable, Repr, Inhabited

def PrimitiveKind.managedName : PrimitiveKind → String
  | .void => "void"
  | .bool => "bool"
  | .i8 => "sbyte"
  | .u8 => "byte"
  | .i16 => "short"
  | .u16 => "ushort"
  | .i32 => "int"
  | .u32 => "uint"
  | .i64 => "long"
  | .u64 => "ulong"
  | .f32 => "float"
  | .f64 => "double"

/-- What a type is for the marshaller. Classification of a spelling never yields
`countedHandle`, which only declared symbols have. -/
inductive Category
  | primitive (kind : PrimitiveKind)
  | structuredValue
  | text
  | handle
  | callback
  | countedHandle
  | unsupported
  | unknown
deriving DecidableEq, Repr, Inhabited

def Category.label : Category → String
  | .primitive kind => s!"primitive({kind.managedName})"
  | .structuredValue => "structured-value"
  | .text => "string"
  | .handle => "opaque-handle"
  | .callback => "callback"
  | .countedHandle => "reference-counted-handle"
  | .unsupported => "not-supported"
  | .unknown => "not-found"

/-- Whether a pointer to a value of the category is passed by reference. -/
def Category.isPrimitive : Category → Bool
  | .primitive _ => true
  | .structuredValue => true
  | _ => false

/-- A category with what else the spelling says about how a value is passed. -/
structure Classification where
  category : Category
  isPointer : Bool
  isPrimitive : Bool
deriving DecidableEq, Repr, Inhabited

/-- One row of the classification table. -/
structure ClassificationRow where
  bases : List String
  /-- The pointer marker that the row asks for, if it asks for one or for none. -/
  pointer : Option Bool
  category : Category

/-- Whether a row speaks about a base spelling with or without a pointer marker. -/
def ClassificationRow.covers (row : ClassificationRow) (base : String) (pointer : Bool) : Bool :=
  row.bases.contains base && (row.pointer.isNone || row.pointer == some pointer)

/-- The classification table; the first row that covers a spelling counts. -/
def classificationTable : List ClassificationRow := [
  ⟨["void", "JSCValue"], some true, .handle⟩,
  ⟨["void"], some false, .primitive .void⟩,
  ⟨["gboolean"], none, .primitive .bool⟩,
  ⟨["gfloat", "float"], none, .primitive .f32⟩,
  ⟨["GCallback"], none, .callback⟩,
  ⟨["guchar", "gchar", "const gchar", "const char", "char"], some true, .text⟩,
  ⟨["gconstpointer", "va_list", "gpointer", "GType", "tm"], none, .handle⟩,
  ⟨["GValue", "const GValue"], none, .structuredValue⟩,
  ⟨["guint16", "gushort"], none, .primitive .u16⟩,
  ⟨["gint16", "gshort"], none, .primitive .i16⟩,
  ⟨["gdouble", "double", "long double"], none, .primitive .f64⟩,
  ⟨["int", "gint", "gint32"], none, .primitive .i32⟩,
  ⟨["guint", "guint32", "GQuark", "gunichar", "const gunichar"], none, .primitive .u32⟩,
  ⟨["const guint32"], some true, .primitive .u32⟩,
  ⟨["guint8", "gchar", "guchar"], none, .primitive .u8⟩,
  ⟨["const guint8"], some true, .primitive .u8⟩,
  ⟨["gint8"], none, .primitive .i8⟩,
  ⟨["glong", "gssize", "gint64", "goffset", "time_t"], none, .primitive .i64⟩,
  ⟨["gsize", "guint64", "gulong", "Window"], none, .primitive .u64⟩]

/-- The name prefixes of libraries that are refused. -/
def refusedLibraries : List String := ["Atk", "Cogl"]

/-- Whether a base spelling starts with the name of a refused library. -/
def isRefused (base : String) : Bool :=
  refusedLibraries.any fun library => library.toList.isPrefixOf base.toList

/-- The category of a base spelling with or without a pointer marker. -/
def categoryOf (base : String) (pointer : Bool) : Category :=
  match classificationTable.find? (·.covers base pointer) with
  | some row => row.category
  | none => if isRefused base then .unsupported else .unknown

/-- The classification of a spelling. -/
def classify (s : Spelling) : Classification :=
  let category := categoryOf s.base s.isPointer
  ⟨category, s.isPointer, category.isPrimitive⟩

/-- The native spelling of a fundamental type name; any other name is the name of a symbol. -/
def fundamentalSpelling (name : String) : Option Spelling :=
  if name = "utf8" ∨ name = "filename" then some (.ofString "gchar*")
  else if name = "none" then some (.ofString "void")
  else
    let s := Spelling.ofString name
    match (classify s).category with
    | .unknown => none
    | .unsupported => none
    | _ => some s

end Interop
