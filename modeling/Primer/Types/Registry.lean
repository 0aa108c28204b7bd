import Primer.Types.Basic

/-!
# The types that a program can name

The registry is the primitive types and the nominal types added so far.  A name is taken once:
what it means never changes.
-/

namespace Primer

/-- The nominal types known by name, besides the primitive ones. -/
structure Registry where
  definitions : List TypeDefinition := []

namespace Registry

/-- The type of a given name, if there is one. -/
def find? (registry : Registry) (name : String) : Option Ty :=
  match Ty.primitives.find? (·.name == name) with
  | some type => some type
  | none => (registry.definitions.find? (·.name == name)).map .nominal

/-- The type of a given name. -/
def get (registry : Registry) (name : String) : Except NamingError Ty :=
  match registry.find? name with
  | some type => .ok type
  | none => .error (.unknownType name)

/-- Adds a nominal type under its name, unless the name is taken. -/
def add (registry : Registry) (definition : TypeDefinition) : Except NamingError Registry :=
  match registry.find? definition.name with
  | some _ => .error (.alreadyDefined definition.name)
  | none => .ok { registry with definitions := registry.definitions ++ [definition] }

end Registry

end Primer
