import Primer.Syntax.Basic

/-!
# Canonical trees

Operators group by how loosely they bind, and parentheses are nodes of the tree.  So most trees are
the tree of no text at all: `Canonical` says which trees are.  An operator stands between a left
operand that binds no looser than it does and a right operand that binds tighter, and a member is
selected from anything but an operator.

Which names may occur is left open.
-/

namespace Primer

/-- How loosely the operators of a level bind.  Operands are at 0 and selections of a member at 1,
below all operators. -/
def Precedence.looseness : Precedence → Nat
  | .multiplicative => 2
  | .additive => 3
  | .comparison => 4
  | .logical => 5

def Operator.looseness (operator : Operator) : Nat :=
  operator.precedence.looseness

theorem Operator.ofSymbol?_eq_some {text : String} {operator : Operator} :
    Operator.ofSymbol? text = some operator ↔ text = operator.symbol := by
  constructor
  · intro found
    unfold Operator.ofSymbol? at found
    split at found <;> cases found <;> rfl
  · rintro rfl
    cases operator <;> rfl

namespace Expression

/-- How loosely the outermost part of an expression binds. -/
def looseness : Expression → Nat
  | .literal .. | .group .. | .access .. | .call .. => 0
  | .memberAccess .. | .memberCall .. => 1
  | .binary _ operator _ _ => operator.looseness

mutual

/-- Every operator and every receiver is where a text can put it. -/
def Canonical (name : String → Prop) : Expression → Prop
  | .literal .. => True
  | .group _ inner => inner.Canonical name
  | .binary _ operator left right =>
    left.looseness ≤ operator.looseness ∧ right.looseness < operator.looseness ∧
      left.Canonical name ∧ right.Canonical name
  | .access _ x _ => name x
  | .memberAccess _ receiver x _ => receiver.looseness ≤ 1 ∧ receiver.Canonical name ∧ name x
  | .call _ x args _ => name x ∧ CanonicalAll name args
  | .memberCall _ receiver x args _ =>
    receiver.looseness ≤ 1 ∧ receiver.Canonical name ∧ name x ∧ CanonicalAll name args

def CanonicalAll (name : String → Prop) : List Expression → Prop
  | [] => True
  | e :: es => e.Canonical name ∧ CanonicalAll name es

end

theorem canonicalAll_iff {name : String → Prop} {es : List Expression} :
    CanonicalAll name es ↔ ∀ e ∈ es, e.Canonical name := by
  induction es with
  | nil => simp [CanonicalAll]
  | cons e es ih => simp [CanonicalAll, ih]

end Expression

def Declaration.Canonical (name : String → Prop) (declaration : Declaration) : Prop :=
  name declaration.name ∧ (∀ type ∈ declaration.typeName, name type) ∧
    ∀ value ∈ declaration.value, value.Canonical name

namespace Statement

mutual

def Canonical (name : String → Prop) : Statement → Prop
  | .expression value => value.Canonical name
  | .declaration decl => decl.Canonical name
  | .assignment target value => target.Canonical name ∧ value.Canonical name
  | .conditional condition thenBody elseBody =>
    condition.Canonical name ∧ CanonicalAll name thenBody ∧ CanonicalAll name elseBody
  | .forEach x range body => name x ∧ range.Canonical name ∧ CanonicalAll name body
  | .loop condition body => condition.Canonical name ∧ CanonicalAll name body
  | .result value => value.Canonical name

def CanonicalAll (name : String → Prop) : List Statement → Prop
  | [] => True
  | s :: ss => s.Canonical name ∧ CanonicalAll name ss

end

theorem canonicalAll_iff {name : String → Prop} {ss : List Statement} :
    CanonicalAll name ss ↔ ∀ s ∈ ss, s.Canonical name := by
  induction ss with
  | nil => simp [CanonicalAll]
  | cons s ss ih => simp [CanonicalAll, ih]

end Statement

def Parameter.Canonical (name : String → Prop) (parameter : Parameter) : Prop :=
  name parameter.name ∧ name parameter.typeName

def Method.Canonical (name : String → Prop) (method : Method) : Prop :=
  name method.name ∧ (∀ parameter ∈ method.parameters, parameter.Canonical name) ∧
    (∀ type ∈ method.returnTypeName, name type) ∧ Statement.CanonicalAll name method.body

/-- All trees of the program are canonical. -/
def Program.Canonical (name : String → Prop) (program : Program) : Prop :=
  (∀ field ∈ program.fields, field.Canonical name) ∧
    ∀ method ∈ program.methods, method.Canonical name

end Primer
