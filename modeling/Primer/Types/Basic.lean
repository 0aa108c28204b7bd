import Primer.Native

/-!
# Types

Nine types belong to the language; a host adds nominal types, each with fields and native methods.
A nominal type carries its whole definition, yet types are compared by name: two definitions of one
name are the same type as far as a program can tell.
-/

namespace Primer

/-- What calling a function takes and gives, with its name here and in Java. -/
structure SignatureOf (τ : Type) where
  name : String
  javaName : String
  parameters : List τ
  returns : τ

/-- A method that the host implements. -/
structure NativeMethodOf (τ : Type) where
  signature : SignatureOf τ
  body : Ref → List Value → Native τ Value

/-- A nominal type.  Of two fields with one name, or two methods with one key, the earlier in the
list counts. -/
structure TypeDefinitionOf (τ : Type) where
  name : String
  javaName : String
  fields : List (String × τ) := []
  methods : List (NativeMethodOf τ) := []

/-- The type of an expression. -/
inductive Ty where
  | any
  | nil
  | comparable
  | boolean
  | integer
  | decimal
  | character
  | string
  | integerIterable
  | nominal (definition : TypeDefinitionOf Ty)

abbrev Signature := SignatureOf Ty

abbrev NativeMethod := NativeMethodOf Ty

abbrev TypeDefinition := TypeDefinitionOf Ty

/-- What a variable is called, here and in Java, and the type it was declared with. -/
structure Variable where
  name : String
  javaName : String
  type : Ty

namespace SignatureOf

variable {τ : Type}

def arity (signature : SignatureOf τ) : Nat :=
  signature.parameters.length

def key (signature : SignatureOf τ) : FunctionKey :=
  ⟨signature.name, signature.arity⟩

end SignatureOf

namespace TypeDefinitionOf

variable {τ : Type}

/-- Adds a field; it hides an earlier one of the same name. -/
def addField (definition : TypeDefinitionOf τ) (name : String) (type : τ) : TypeDefinitionOf τ :=
  { definition with fields := (name, type) :: definition.fields }

/-- Adds a method; it hides an earlier one of the same key. -/
def addMethod (definition : TypeDefinitionOf τ) (method : NativeMethodOf τ) :
    TypeDefinitionOf τ :=
  { definition with methods := method :: definition.methods }

end TypeDefinitionOf

namespace Ty

/-- The types that every program has. -/
def primitives : List Ty :=
  [.any, .nil, .comparable, .boolean, .integer, .decimal, .character, .string, .integerIterable]

def name : Ty → String
  | .any => "Any"
  | .nil => "Nil"
  | .comparable => "Comparable"
  | .boolean => "Boolean"
  | .integer => "Integer"
  | .decimal => "Decimal"
  | .character => "Character"
  | .string => "String"
  | .integerIterable => "IntegerIterable"
  | .nominal definition => definition.name

/-- What the type is called in Java. -/
def javaName : Ty → String
  | .any => "Object"
  | .nil => "Void"
  | .comparable => "Comparable"
  | .boolean => "boolean"
  | .integer => "int"
  | .decimal => "double"
  | .character => "char"
  | .string => "String"
  | .integerIterable => "Iterable<Integer>"
  | .nominal definition => definition.javaName

/-- Types are equal when their names are. -/
instance : BEq Ty := ⟨fun s t => s.name == t.name⟩

/-- Whether values of the type have an order, so that `Comparable` takes them. -/
def isOrdered : Ty → Bool
  | .comparable | .integer | .decimal | .character | .string => true
  | _ => false

/-- Whether a value of type `source` may stand where `target` is asked for. -/
def accepts (target source : Ty) : Bool :=
  match target with
  | .any => true
  | .comparable => source.isOrdered
  | _ => target == source

/-- The type of a field. -/
def field (type : Ty) (name : String) : Except NamingError Ty :=
  let found :=
    match type with
    | .nominal definition => definition.fields.lookup name
    | _ => none
  match found with
  | some fieldType => .ok fieldType
  | none => .error (.unknownField name type.name)

/-- The method with a given key. -/
def method (type : Ty) (key : FunctionKey) : Except NamingError NativeMethod :=
  let found :=
    match type with
    | .nominal definition => definition.methods.find? (·.signature.key == key)
    | _ => none
  match found with
  | some method => .ok method
  | none => .error (.unknownMethod key type.name)

end Ty

end Primer
