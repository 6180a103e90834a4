import Interop.Diagnostic

/-! Faults: why descriptions form no graph of repositories, or why a declaration cannot be
generated. -/

namespace Interop

/-- A cause of failure. -/
inductive Fault
  | missingField (declaration field : String)
  | invalidField (declaration field value : String)
  | unresolvedSymbol (name searchedFrom : String)
  | unresolvedDependency (included requiredBy : String)
  | unsupportedType (ctype : String)
  | ambiguousClassStruct (record owner : String)
  | aliasCycle (chain : List String)
  | dependencyCycle (namespaces : List String)
  | duplicateNamespace (canonical : String)
  | includeRebound (included : String)
deriving DecidableEq, Repr, Inhabited

namespace Fault

def message : Fault → String
  | missingField declaration field => s!"{declaration} is missing required attribute `{field}`"
  | invalidField declaration field value => s!"{declaration} has invalid {field} `{value}`"
  | unresolvedSymbol name searchedFrom =>
    s!"unresolved symbol `{name}` referenced from `{searchedFrom}`"
  | unresolvedDependency included requiredBy =>
    s!"include `{included}` of `{requiredBy}` is not resolved"
  | unsupportedType ctype => s!"unsupported native type `{ctype}`"
  | ambiguousClassStruct record owner =>
    s!"class struct `{record}` points at `{owner}`, which has no namespace context"
  | aliasCycle chain => "alias cycle: " ++ " -> ".intercalate chain
  | dependencyCycle namespaces =>
    "dependency cycle between namespaces: " ++ ", ".intercalate namespaces
  | duplicateNamespace canonical => s!"namespace `{canonical}` is declared more than once"
  | includeRebound included => s!"include `{included}` is already bound to another repository"

def code : Fault → String
  | missingField .. => "girbind::build::missing_field"
  | invalidField .. => "girbind::build::invalid_field"
  | unresolvedSymbol .. => "girbind::resolve::unresolved_symbol"
  | unresolvedDependency .. => "girbind::resolve::unresolved_dependency"
  | unsupportedType .. => "girbind::resolve::unsupported_type"
  | ambiguousClassStruct .. => "girbind::build::ambiguous_class_struct"
  | aliasCycle .. => "girbind::resolve::alias_cycle"
  | dependencyCycle .. => "girbind::build::dependency_cycle"
  | duplicateNamespace .. => "girbind::build::duplicate_namespace"
  | includeRebound .. => "girbind::build::include_rebound"

/-- Structural faults end a run; the others only concern one declaration. -/
def isStructural : Fault → Bool
  | unresolvedSymbol .. => false
  | unsupportedType .. => false
  | aliasCycle .. => false
  | _ => true

def diagnostic (fault : Fault) : Diagnostic :=
  let start := Diagnostic.error fault.message
  let regenerate := "help: Regenerate the description with a newer scanner"
  let onlyOnce := "help: Pass each namespace description only once"
  match fault with
  | missingField .. => start.withSuggestion regenerate
  | invalidField .. => start.withSuggestion regenerate
  | unresolvedSymbol _ searchedFrom =>
    (start.withContext s!"searched `{searchedFrom}` and its includes").withSuggestion
      "help: Check the spelling or qualify the name with its namespace (e.g. `Gio.File`)"
  | unresolvedDependency included _ =>
    (start.withContext s!"no input declares namespace `{included}`").withSuggestion
      "help: Pass the description of the included namespace as an additional input"
  | unsupportedType .. =>
    start.withSuggestion "help: Exclude the declaration or mark it as not introspectable"
  | ambiguousClassStruct _ owner =>
    start.withContext s!"`{owner}` must be a class or interface of the same namespace"
  | aliasCycle chain => start.withContext ("cycle: " ++ " -> ".intercalate chain)
  | dependencyCycle namespaces =>
    (start.withContext ("cycle: " ++ " -> ".intercalate namespaces)).withSuggestion
      "help: Break the cycle by removing one of the includes"
  | duplicateNamespace .. => start.withSuggestion onlyOnce
  | includeRebound .. => start.withSuggestion onlyOnce

end Fault

end Interop
