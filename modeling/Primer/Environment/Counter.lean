import Primer.Environment.Basic

/-!
# An environment with counters

The standard environment with one nominal type: a counter holds an integer, adds to it and goes back
to zero.
-/

namespace Primer

namespace Counter

/-- Adds the argument to the count and returns the new count. -/
def increment : NativeMethod where
  signature := ⟨"increment", "increment", [.integer], .integer⟩
  body
    | self, [step] => do
      let step ← Native.ofExcept step.toInt
      let current ← Native.readField self "count"
      let current ← Native.ofExcept current.toInt
      Native.writeField self "count" (.integer (current + step))
      return .integer (current + step)
    | _, arguments => .fail (.arityMismatch "increment" 1 arguments.length)

/-- Sets the count to zero. -/
def reset : NativeMethod where
  signature := ⟨"reset", "reset", [], .nil⟩
  body
    | self, [] => do
      Native.writeField self "count" (.integer 0)
      return .nil
    | _, arguments => .fail (.arityMismatch "reset" 0 arguments.length)

def definition : TypeDefinition where
  name := "Counter"
  javaName := "Counter"
  fields := [("count", .integer)]
  methods := [increment, reset]

/-- Makes a counter that stands at zero. -/
def create : NativeFunction where
  signature := ⟨"counter", "counter", [], .nominal definition⟩
  body
    | [] => Native.newObject (.nominal definition) [("count", .integer 0)]
    | arguments => .fail (.arityMismatch "counter" 0 arguments.length)

end Counter

/-- The standard environment with the type `Counter` and the function `counter`. -/
def Environment.counter : Environment where
  types := { definitions := [Counter.definition] }
  functions := Environment.standard.functions ++ [Counter.create]

/-- It is what adding the type and then the function to the standard environment gives. -/
theorem Environment.counter_eq :
    (Environment.standard.addType Counter.definition >>= (·.addFunction Counter.create)) =
      .ok Environment.counter :=
  rfl

end Primer
