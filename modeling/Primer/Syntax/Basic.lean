import Primer.Syntax.Operator
import Primer.Token.Basic
import Primer.Types.Basic

/-!
# Syntax trees

A program is a list of fields and a list of methods.  Every node knows its place in the source, and
has slots for what checking finds out: the type of an expression, the variable that an access or a
declaration means, the signature of a call or a method.  A slot is empty until it is filled.
-/

namespace Primer

/-- A constant written in a program. -/
inductive Literal where
  | nil
  | boolean (value : Bool)
  | integer (value : Int)
  | decimal (value : Decimal)
  | character (value : Char)
  | string (value : String)
deriving Repr

/-- The place of an expression and the slot for its type. -/
structure Note where
  span : Span
  type : Option Ty := none

/-- An expression.  Accesses and calls come in two forms: by name alone, and as a member of what a
receiver evaluates to. -/
inductive Expression where
  | literal (note : Note) (value : Literal)
  | group (note : Note) (inner : Expression)
  | binary (note : Note) (operator : Operator) (left right : Expression)
  | access (note : Note) (name : String) (binding : Option Variable)
  | memberAccess (note : Note) (receiver : Expression) (name : String) (binding : Option Variable)
  | call (note : Note) (name : String) (arguments : List Expression) (binding : Option Signature)
  | memberCall (note : Note) (receiver : Expression) (name : String) (arguments : List Expression)
      (binding : Option Signature)

/-- A new variable: a field of the program, or a statement. -/
structure Declaration where
  name : String
  typeName : Option String
  value : Option Expression
  span : Span
  binding : Option Variable := none

/-- A statement of a method body. -/
inductive Statement where
  | expression (value : Expression)
  | declaration (declaration : Declaration)
  | assignment (target value : Expression)
  | conditional (condition : Expression) (thenBody elseBody : List Statement)
  | forEach (name : String) (range : Expression) (body : List Statement)
  | loop (condition : Expression) (body : List Statement)
  | result (value : Expression)

/-- A parameter and the name of its type. -/
structure Parameter where
  name : String
  typeName : String
deriving DecidableEq, Repr

/-- A method of the program. -/
structure Method where
  name : String
  parameters : List Parameter
  returnTypeName : Option String
  body : List Statement
  span : Span
  binding : Option Signature := none

/-- A program: its fields, then its methods. -/
structure Program where
  fields : List Declaration
  methods : List Method

namespace Expression

def note : Expression → Note
  | .literal note .. | .group note .. | .binary note .. | .access note .. | .memberAccess note ..
  | .call note .. | .memberCall note .. => note

def span (e : Expression) : Span :=
  e.note.span

/-- A binary expression with empty slots, spanning both operands. -/
def combine (operator : Operator) (left right : Expression) : Expression :=
  .binary { span := ⟨left.span.start, right.span.stop⟩ } operator left right

end Expression

/-- What a method is known by. -/
def Method.key (method : Method) : FunctionKey :=
  ⟨method.name, method.parameters.length⟩

end Primer
