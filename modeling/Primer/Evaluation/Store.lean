import Primer.Bindings
import Primer.Types.Basic

/-!
# Objects

The store holds the objects of a run, each with its type and its fields.  Objects are made, read
and written through it and through nothing else: an object keeps its type and the names of its
fields for as long as the run lasts.

`Native.run` carries out native code on the store and the output lines, which is all that native
code can see.
-/

namespace Primer

/-- An object: its type and the values of its fields. -/
structure Object where
  type : Ty
  fields : List (String × Value)

/-- The objects of a run, in the order of their creation. -/
structure Store where
  objects : Array Object := #[]

namespace Store

/-- The object behind a handle. -/
def find? (store : Store) (ref : Ref) : Option Object :=
  store.objects[ref.index]?

/-- Makes an object.  Of two fields with one name the later counts. -/
def create (store : Store) (type : Ty) (fields : List (String × Value)) : Ref × Store :=
  (⟨store.objects.size, type.name⟩, { objects := store.objects.push ⟨type, fields.reverse⟩ })

/-- The value of a field, if the object has it. -/
def read? (store : Store) (ref : Ref) (field : String) : Option Value := do
  let object ← store.find? ref
  object.fields.lookup field

/-- Changes a field that the object has.  If it has none of the name, the store stays as it is. -/
def write (store : Store) (ref : Ref) (field : String) (value : Value) :
    Except RunError Unit × Store :=
  match store.read? ref field with
  | none => (.error (.unknownField field ref.typeName), store)
  | some _ => (.ok (), {
      objects := store.objects.modify ref.index fun object =>
        { object with fields := Bindings.replace field value object.fields } })

/-- The native method that a call on an object means. -/
def method (store : Store) (ref : Ref) (key : FunctionKey) : Except NamingError NativeMethod :=
  match store.find? ref with
  | some object => object.type.method key
  | none => .error (.unknownMethod key ref.typeName)

end Store

/-- What native code can see and change: the objects and the lines printed so far. -/
structure Effects where
  store : Store := {}
  output : Array String := #[]

/-- Carries out native code. -/
def Native.run {α : Type} : Native Ty α → Effects → Except RunError α × Effects
  | .done value, effects => (.ok value, effects)
  | .fail error, effects => (.error error, effects)
  | .print line next, ⟨store, output⟩ => next.run ⟨store, output.push line⟩
  | .create type fields next, ⟨store, output⟩ =>
    let (ref, store) := store.create type fields
    (next ref).run ⟨store, output⟩
  | .read object field next, effects =>
    (next (effects.store.read? object field)).run effects
  | .write object field value next, ⟨store, output⟩ =>
    let (result, store) := store.write object field value
    (next result).run ⟨store, output⟩

end Primer
