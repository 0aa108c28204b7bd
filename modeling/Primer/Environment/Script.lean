import Primer.Environment.Basic

/-!
# Natives described as data

A host may describe its types and functions instead of writing them as code.  A recipe says how
to make a value, a script what a native does: print a value, change a field of its object, fail,
return a value, each of them if asked for and in this order.

Descriptions name types.  The names are resolved in the environment as it is when the description
is added, so a type can only mention types that were there before it.
-/

namespace Primer

/-- How a native makes a value; objects are made from types `τ`. -/
inductive Recipe (τ : Type) where
  | constant (value : Value)
  | argument (index : Nat)
  | this
  | field (name : String)
  | object (type : τ) (fields : List (String × Recipe τ))

/-- What a native does when it is called. -/
structure Script (τ : Type) where
  print : Option (Recipe τ) := none
  set : Option (String × Recipe τ) := none
  fails : Bool := false
  returns : Option (Recipe τ) := none

/-! ## Carrying out a script -/

section Build

variable {τ : Type}

mutual

/-- Makes the value of a recipe.  Without an object, its fields and the object itself are nil,
and so is a missing argument. -/
def Recipe.build (this : Option Ref) (arguments : List Value) : Recipe τ → Native τ Value
  | .constant value => .done value
  | .argument index => .done (arguments[index]?.getD .nil)
  | .this =>
    match this with
    | some ref => .done (.object ref)
    | none => .done .nil
  | .field name =>
    match this with
    | some ref => Native.readField ref name
    | none => .done .nil
  | .object type fields => do
    let values ← Recipe.buildFields this arguments fields
    Native.newObject type values

def Recipe.buildFields (this : Option Ref) (arguments : List Value) :
    List (String × Recipe τ) → Native τ (List (String × Value))
  | [] => .done []
  | (name, recipe) :: rest => do
    let value ← recipe.build this arguments
    let others ← Recipe.buildFields this arguments rest
    return (name, value) :: others

end

/-- Carries out a script, on an object or on none. -/
def Script.perform (script : Script τ) (this : Option Ref) (arguments : List Value) :
    Native τ Value := do
  match script.print with
  | none => pure ()
  | some recipe =>
    let value ← recipe.build this arguments
    Native.printLine value.render
  match script.set, this with
  | some (field, recipe), some ref =>
    let value ← recipe.build this arguments
    Native.writeField ref field value
  | _, _ => pure ()
  if script.fails then
    .fail .divisionByZero
  else
    match script.returns with
    | none => return .nil
    | some recipe => recipe.build this arguments

end Build

/-! ## Resolving names -/

mutual

/-- Replaces the type names of a recipe by types. -/
def Recipe.resolve (types : Registry) : Recipe String → Except NamingError (Recipe Ty)
  | .constant value => .ok (.constant value)
  | .argument index => .ok (.argument index)
  | .this => .ok .this
  | .field name => .ok (.field name)
  | .object typeName fields => do
    let type ← types.get typeName
    let fields ← Recipe.resolveFields types fields
    return .object type fields

def Recipe.resolveFields (types : Registry) :
    List (String × Recipe String) → Except NamingError (List (String × Recipe Ty))
  | [] => .ok []
  | (name, recipe) :: rest => do
    let resolved ← recipe.resolve types
    let others ← Recipe.resolveFields types rest
    return (name, resolved) :: others

end

/-- Replaces the type names of a script by types. -/
def Script.resolve (types : Registry) (script : Script String) :
    Except NamingError (Script Ty) := do
  let print ← script.print.mapM (·.resolve types)
  let set ← script.set.mapM fun (field, recipe) => do
    return (field, ← recipe.resolve types)
  let returns ← script.returns.mapM (·.resolve types)
  return { print, set, fails := script.fails, returns }

/-! ## Descriptions -/

/-- A function or method by the names of its types. -/
structure FunctionDescription where
  name : String
  parameters : List String
  returns : String
  script : Script String

/-- A nominal type by the names of the types it uses. -/
structure TypeDescription where
  name : String
  javaName : String
  fields : List (String × String)
  methods : List FunctionDescription

/-- The signature that a description gives, its types resolved. -/
def FunctionDescription.signature (types : Registry) (description : FunctionDescription) :
    Except NamingError Signature := do
  let parameters ← description.parameters.mapM types.get
  let returns ← types.get description.returns
  return ⟨description.name, description.name, parameters, returns⟩

/-- The described method.  Its script is resolved before its signature. -/
def FunctionDescription.method (types : Registry) (description : FunctionDescription) :
    Except NamingError NativeMethod := do
  let script ← description.script.resolve types
  let signature ← description.signature types
  return { signature, body := fun self arguments => script.perform (some self) arguments }

/-- The described function.  Its signature is resolved before its script. -/
def FunctionDescription.function (types : Registry) (description : FunctionDescription) :
    Except NamingError NativeFunction := do
  let signature ← description.signature types
  let script ← description.script.resolve types
  return { signature, body := fun arguments => script.perform none arguments }

/-- The described type: its fields are resolved first, then its methods. -/
def TypeDescription.definition (types : Registry) (description : TypeDescription) :
    Except NamingError TypeDefinition := do
  let fields ← description.fields.mapM fun (name, typeName) => do
    return (name, ← types.get typeName)
  let methods ← description.methods.mapM (·.method types)
  let empty : TypeDefinition := { name := description.name, javaName := description.javaName }
  let filled :=
    fields.foldl (fun definition (name, type) => definition.addField name type) empty
  return methods.foldl .addMethod filled

namespace Environment

/-- Adds a described type. -/
def describeType (environment : Environment) (description : TypeDescription) :
    Except NamingError Environment := do
  environment.addType (← description.definition environment.types)

/-- Adds a described function. -/
def describeFunction (environment : Environment) (description : FunctionDescription) :
    Except NamingError Environment := do
  environment.addFunction (← description.function environment.types)

end Environment

end Primer
