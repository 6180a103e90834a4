import Interop.Fault

/-! Errors that end a run: a cause, and what was being done when it arose. -/

namespace Interop

inductive RunError
  /-- A fault of the descriptions. -/
  | fault (cause : Fault)
  /-- An error that says all there is to say. -/
  | stated (message : String)
  /-- An error that arose while something was done. -/
  | within (context : String) (cause : RunError)
deriving Repr, Inhabited

namespace RunError

def message : RunError → String
  | fault cause => cause.message
  | stated message => message
  | within context _ => context

/-- All messages from the outermost to the cause. -/
def chain : RunError → String
  | fault cause => cause.message
  | stated message => message
  | within context cause => context ++ ": " ++ cause.chain

/-- The fault that is the cause, if the cause is a fault. -/
def fault? : RunError → Option Fault
  | fault cause => some cause
  | stated _ => none
  | within _ cause => cause.fault?

end RunError

end Interop
