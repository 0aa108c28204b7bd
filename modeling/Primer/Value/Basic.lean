import Primer.Decimal.Text
import Primer.RunError

/-!
# Values

The values a program computes with.  Objects are known by a handle: two handles are the same object
or not, and what the object holds is kept elsewhere.  All other values are what they show.
-/

namespace Primer

/-- A handle on an object: its place among the objects of the run, and the name of its type. -/
structure Ref where
  index : Nat
  typeName : String
deriving DecidableEq, Repr

/-- The integers from `start` up to but excluding `stop`.  Only the ends are stored. -/
structure IntegerRange where
  start : Int
  stop : Int
deriving Repr

namespace IntegerRange

/-- How many integers the range holds. -/
def length (r : IntegerRange) : Nat :=
  (r.stop - r.start).toNat

/-- The integers of the range, in order. -/
def toList (r : IntegerRange) : List Int :=
  (List.range r.length).map fun (i : Nat) => r.start + i

def isEmpty (r : IntegerRange) : Bool :=
  r.stop ≤ r.start

/-- Ranges are equal when they hold the same integers: all empty ranges are. -/
def equal (r s : IntegerRange) : Bool :=
  (r.isEmpty && s.isEmpty) || (r.start == s.start && r.stop == s.stop)

instance : BEq IntegerRange := ⟨equal⟩

/-- The integers of the range between brackets. -/
def render (r : IntegerRange) : String :=
  "[" ++ ", ".intercalate (r.toList.map Numeral.render) ++ "]"

end IntegerRange

/-- A value of the language. -/
inductive Value where
  | nil
  | boolean (value : Bool)
  | integer (value : Int)
  | decimal (value : Decimal)
  | character (value : Char)
  | string (value : String)
  | range (value : IntegerRange)
  | object (ref : Ref)
deriving Repr

namespace Value

/-- The name of the type that a value belongs to. -/
def typeName : Value → String
  | .nil => "Nil"
  | .boolean _ => "Boolean"
  | .integer _ => "Integer"
  | .decimal _ => "Decimal"
  | .character _ => "Character"
  | .string _ => "String"
  | .range _ => "IntegerIterable"
  | .object ref => ref.typeName

/-- The text of a value, as printed. -/
def render : Value → String
  | .nil => "null"
  | .boolean true => "true"
  | .boolean false => "false"
  | .integer i => Numeral.render i
  | .decimal d => d.render
  | .character c => String.singleton c
  | .string s => s
  | .range r => r.render
  | .object ref => "<" ++ ref.typeName ++ " object>"

/-- Equality of values.  Values of different kinds are never equal, decimals are compared by value,
ranges by what they hold and objects by identity. -/
def equal : Value → Value → Bool
  | .nil, .nil => true
  | .boolean a, .boolean b => a == b
  | .integer a, .integer b => a == b
  | .decimal a, .decimal b => a == b
  | .character a, .character b => a == b
  | .string a, .string b => a == b
  | .range a, .range b => a == b
  | .object a, .object b => a == b
  | _, _ => false

instance : BEq Value := ⟨equal⟩

/-- The order of two values of one ordered kind. -/
def compare? : Value → Value → Option Ordering
  | .integer a, .integer b => some (Ord.compare a b)
  | .decimal a, .decimal b => some (a.compare b)
  | .character a, .character b => some (Ord.compare a b)
  | .string a, .string b => some (Ord.compare a b)
  | _, _ => none

/-- The truth value, or the complaint that there is none. -/
def toBool : Value → Except RunError Bool
  | .boolean b => .ok b
  | other => .error (.unexpectedType "Boolean" other.typeName)

/-- The integer, or the complaint that there is none. -/
def toInt : Value → Except RunError Int
  | .integer i => .ok i
  | other => .error (.unexpectedType "Integer" other.typeName)

end Value

end Primer
