import Primer.Syntax.Basic

/-!
# Typing rules

The rules that need no scope: what may be assigned to what, the type of a literal, the type of a
binary operator.
-/

namespace Primer

/-- The statements whose body may not be empty. -/
inductive Construct where
  | conditional
  | forEach
deriving DecidableEq, Repr

/-- Why a program has no type.  Types and literals are mentioned by their text. -/
inductive TypingError where
  | notAssignable (target source : String)
  | invalidOperands (operator left right : String)
  | integerOutOfRange (literal : String)
  | decimalOutOfRange (literal : String)
  | untypedDeclaration (name : String)
  | invalidAssignmentTarget
  | notAStatement
  | emptyBody (construct : Construct)
  | missingMain
  | alreadyResolved
deriving DecidableEq, Repr

/-- Why checking a program failed. -/
inductive CheckError where
  | naming (error : NamingError)
  | typing (error : TypingError)
deriving DecidableEq, Repr

def Construct.word : Construct → String
  | .conditional => "IF"
  | .forEach => "FOR"

/-- The text of a type error. -/
def TypingError.message : TypingError → String
  | .notAssignable target source => s!"Expected a value of type {target}, got {source}"
  | .invalidOperands operator left right =>
    s!"Operator '{operator}' is not defined for {left} and {right}"
  | .integerOutOfRange literal => s!"Integer literal {literal} is out of range"
  | .decimalOutOfRange literal => s!"Decimal literal {literal} is out of range"
  | .untypedDeclaration name => s!"Declaration of '{name}' needs a type or an initial value"
  | .invalidAssignmentTarget => "Only variables and fields can be assigned"
  | .notAStatement => "Expression statements must be function calls"
  | .emptyBody construct => s!"{construct.word} body must not be empty"
  | .missingMain => "Program must define main() returning Integer"
  | .alreadyResolved => "Node was already analyzed"

/-- The text of a checking error. -/
def CheckError.message : CheckError → String
  | .naming error => error.message
  | .typing error => error.message

/-- Demands that a value of type `source` may stand where `target` is asked for. -/
def Ty.mustAccept (target source : Ty) : Except TypingError Unit :=
  if target.accepts source then .ok () else .error (.notAssignable target.name source.name)

/-- Integer literals have 32 bits, although integers grow without bound while a program runs. -/
def Literal.fitsInteger (value : Int) : Bool :=
  -2147483648 ≤ value && value ≤ 2147483647

/-- The type of a literal. -/
def Literal.type : Literal → Except TypingError Ty
  | .nil => .ok .nil
  | .boolean _ => .ok .boolean
  | .integer value =>
    if Literal.fitsInteger value then
      .ok .integer
    else
      .error (.integerOutOfRange (Numeral.render value))
  | .decimal value =>
    if value.fitsDouble then
      .ok .decimal
    else
      .error (.decimalOutOfRange value.render)
  | .character _ => .ok .character
  | .string _ => .ok .string

/-- The type of an arithmetic operator's result, where it has one. -/
def Operator.arithmeticType? (operator : Operator) : Ty → Ty → Option Ty
  | .integer, .integer => some .integer
  | .decimal, .decimal => some .decimal
  | .string, .string => if operator = .add then some .string else none
  | _, _ => none

/-- The type of a binary operator's result.  Logical operators take booleans, comparisons take two
comparable values of which the left type accepts the right. -/
def Operator.type (operator : Operator) (left right : Ty) : Except TypingError Ty :=
  match operator.precedence with
  | .logical => do
    Ty.boolean.mustAccept left
    Ty.boolean.mustAccept right
    return .boolean
  | .comparison => do
    Ty.comparable.mustAccept left
    Ty.comparable.mustAccept right
    left.mustAccept right
    return .boolean
  | .additive | .multiplicative =>
    match operator.arithmeticType? left right with
    | some type => .ok type
    | none => .error (.invalidOperands operator.symbol left.name right.name)

end Primer
