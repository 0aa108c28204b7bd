import Primer.Types.Registry

/-!
# Environments

What a host gives to a program: types that it can name and native functions that it can call.  The
standard environment has the primitive types, `print` and `range`.  An environment only grows:
a name that is taken keeps its meaning.
-/

namespace Primer

/-- A function that the host implements. -/
structure NativeFunction where
  signature : Signature
  body : List Value → Native Ty Value

/-- The types and functions of the host; the functions in the order of their definition. -/
structure Environment where
  types : Registry := {}
  functions : List NativeFunction := []

namespace NativeFunction

/-- Prints the text of any value on a line of its own. -/
def print : NativeFunction where
  signature := ⟨"print", "System.out.println", [.any], .nil⟩
  body
    | [value] => do
      Native.printLine value.render
      return .nil
    | arguments => .fail (.arityMismatch "print" 1 arguments.length)

/-- The integers from the first argument up to but excluding the second. -/
def range : NativeFunction where
  signature := ⟨"range", "range", [.integer, .integer], .integerIterable⟩
  body
    | [start, stop] => do
      let start ← Native.ofExcept start.toInt
      let stop ← Native.ofExcept stop.toInt
      return .range ⟨start, stop⟩
    | arguments => .fail (.arityMismatch "range" 2 arguments.length)

end NativeFunction

namespace Environment

def standard : Environment where
  functions := [NativeFunction.print, NativeFunction.range]

/-- Adds a nominal type. -/
def addType (environment : Environment) (definition : TypeDefinition) :
    Except NamingError Environment := do
  let types ← environment.types.add definition
  return { environment with types }

/-- Adds a native function, unless one of the same key is there. -/
def addFunction (environment : Environment) (function : NativeFunction) :
    Except NamingError Environment :=
  if environment.functions.any (·.signature.key == function.signature.key) then
    .error (.alreadyDefined function.signature.name)
  else
    .ok { environment with functions := environment.functions ++ [function] }

end Environment

end Primer
