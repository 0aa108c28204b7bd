import Primer.Syntax.Basic

/-!
# Bare programs

A bare tree holds the names, the constants and the operators of a program, and nothing else: it has
no places and no names of types, and its slots are empty.
-/

namespace Primer

/-- The note of a node that is nowhere. -/
def Note.bare : Note := { span := ⟨0, 0⟩ }

mutual

/-- An expression without its notes and its bindings. -/
def Expression.bare : Expression → Expression
  | .literal _ value => .literal .bare value
  | .group _ inner => .group .bare inner.bare
  | .binary _ operator left right => .binary .bare operator left.bare right.bare
  | .access _ name _ => .access .bare name none
  | .memberAccess _ receiver name _ => .memberAccess .bare receiver.bare name none
  | .call _ name args _ => .call .bare name (Expression.bareAll args) none
  | .memberCall _ receiver name args _ =>
    .memberCall .bare receiver.bare name (Expression.bareAll args) none

def Expression.bareAll : List Expression → List Expression
  | [] => []
  | e :: es => e.bare :: Expression.bareAll es

end

def Declaration.bare (decl : Declaration) : Declaration where
  name := decl.name
  typeName := none
  value := decl.value.map Expression.bare
  span := ⟨0, 0⟩

mutual

def Statement.bare : Statement → Statement
  | .expression value => .expression value.bare
  | .declaration decl => .declaration decl.bare
  | .assignment target value => .assignment target.bare value.bare
  | .conditional condition thenBody elseBody =>
    .conditional condition.bare (Statement.bareAll thenBody) (Statement.bareAll elseBody)
  | .forEach name range body => .forEach name range.bare (Statement.bareAll body)
  | .loop condition body => .loop condition.bare (Statement.bareAll body)
  | .result value => .result value.bare

def Statement.bareAll : List Statement → List Statement
  | [] => []
  | s :: ss => s.bare :: Statement.bareAll ss

end

/-- A parameter without its type. -/
def Parameter.bare (parameter : Parameter) : Parameter :=
  { parameter with typeName := "" }

def Method.bare (method : Method) : Method where
  name := method.name
  parameters := method.parameters.map Parameter.bare
  returnTypeName := none
  body := Statement.bareAll method.body
  span := ⟨0, 0⟩

def Program.bare (program : Program) : Program where
  fields := program.fields.map Declaration.bare
  methods := program.methods.map Method.bare

end Primer
