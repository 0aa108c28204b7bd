import Primer.Name

/-!
# What can go wrong while a program runs

Values are mentioned by the name of their type only, so an error says nothing about the objects of
the run that raised it.
-/

namespace Primer

/-- The causes that end a run. -/
inductive RunError where
  | naming (error : NamingError)
  | unexpectedType (expected got : String)
  | unknownField (field typeName : String)
  | arityMismatch (name : String) (expected found : Nat)
  | invalidOperands (operator left right : String)
  | notIterable (got : String)
  | divisionByZero
  | missingMain
  | mainNotInteger (got : String)
deriving DecidableEq, Repr

/-- The text of a runtime error. -/
def RunError.message : RunError → String
  | .naming error => error.message
  | .unexpectedType expected got => s!"Expected a value of type {expected}, got {got}"
  | .unknownField field typeName => s!"Unknown field '{field}' for type {typeName}"
  | .arityMismatch name expected found =>
    s!"Function '{name}' expected {expected} arguments, got {found}"
  | .invalidOperands operator left right =>
    s!"Operator '{operator}' is not defined for {left} and {right}"
  | .notIterable got => s!"Value of type {got} is not iterable"
  | .divisionByZero => "Division by zero"
  | .missingMain => "Program does not define main()"
  | .mainNotInteger got => s!"main() returned {got}, expected an Integer"

end Primer
