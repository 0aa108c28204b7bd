/-!
# Names

Variables and types are known by their name alone, functions and methods by their name together
with the number of their parameters.  `NamingError` lists the ways in which a name can fail to mean
what was asked of it.
-/

namespace Primer

/-- What a function is known by.  Functions of one name and different arities have nothing to do
with each other. -/
structure FunctionKey where
  name : String
  arity : Nat
deriving DecidableEq, Repr

/-- A name that means nothing where it stands, or too much. -/
inductive NamingError where
  | undefinedVariable (name : String)
  | undefinedFunction (key : FunctionKey)
  | unknownType (name : String)
  | unknownField (field typeName : String)
  | unknownMethod (key : FunctionKey) (typeName : String)
  | alreadyDefined (name : String)
deriving DecidableEq, Repr

/-- The text of a name error. -/
def NamingError.message : NamingError → String
  | .undefinedVariable name => s!"Undefined variable '{name}'"
  | .undefinedFunction ⟨name, arity⟩ => s!"Undefined function '{name}' with {arity} arguments"
  | .unknownType name => s!"Unknown type '{name}'"
  | .unknownField field typeName => s!"Unknown field '{field}' for type {typeName}"
  | .unknownMethod ⟨name, arity⟩ typeName =>
    s!"Unknown method '{name}' with {arity} arguments for type {typeName}"
  | .alreadyDefined name => s!"'{name}' is already defined in this scope"

end Primer
