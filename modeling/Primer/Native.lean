import Primer.Value.Basic

/-!
# Native code

A native function or method is code of the host.  What it may do is fixed: write output lines,
make objects, and read and write fields of objects it holds a handle on.  `Native τ α` is such
code as a tree of these effects with what to do next, ending in a value of type `α` or in an
error; `τ` is what objects are made from.

The tree says nothing about how objects are kept, so native code cannot change an object in any
other way.
-/

namespace Primer

/-- Native code that makes objects of types `τ` and returns an `α`. -/
inductive Native (τ α : Type) : Type where
  | done (value : α)
  | fail (error : RunError)
  | print (line : String) (next : Native τ α)
  | create (type : τ) (fields : List (String × Value)) (next : Ref → Native τ α)
  | read (object : Ref) (field : String) (next : Option Value → Native τ α)
  | write (object : Ref) (field : String) (value : Value)
      (next : Except RunError Unit → Native τ α)

namespace Native

variable {τ α β : Type}

/-- Runs `first` and goes on with `next` from its value. -/
def bind (first : Native τ α) (next : α → Native τ β) : Native τ β :=
  match first with
  | .done value => next value
  | .fail error => .fail error
  | .print line rest => .print line (rest.bind next)
  | .create type fields rest => .create type fields fun ref => (rest ref).bind next
  | .read object field rest => .read object field fun value => (rest value).bind next
  | .write object field value rest => .write object field value fun done => (rest done).bind next

instance : Monad (Native τ) where
  pure := .done
  bind := bind

/-- Goes on with a result that is already there. -/
def ofExcept : Except RunError α → Native τ α
  | .ok value => .done value
  | .error error => .fail error

/-- Writes one line of output. -/
def printLine (line : String) : Native τ Unit :=
  .print line (.done ())

/-- A new object with the given fields; of two fields with one name the later counts. -/
def newObject (type : τ) (fields : List (String × Value)) : Native τ Value :=
  .create type fields fun ref => .done (.object ref)

/-- The value of a field; a missing field is an error. -/
def readField (object : Ref) (name : String) : Native τ Value :=
  .read object name fun
    | some value => .done value
    | none => .fail (.unknownField name object.typeName)

/-- Changes a field; a missing field is an error. -/
def writeField (object : Ref) (name : String) (value : Value) : Native τ Unit :=
  .write object name value ofExcept

end Native

end Primer
