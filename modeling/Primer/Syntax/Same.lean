import Primer.Syntax.Basic

/-!
# Sameness of syntax trees

Two trees are the same when they agree in shape, names, places and slots.  Decimal literals are
compared by value and types by name, so `1.0` and `1.00` are the same literal.
-/

namespace Primer

/-- Compares two lists item by item. -/
def sameItems {α : Type} (same : α → α → Bool) : List α → List α → Bool
  | [], [] => true
  | a :: as, b :: bs => same a b && sameItems same as bs
  | _, _ => false

/-- Compares two slots. -/
def sameSlot {α : Type} (same : α → α → Bool) : Option α → Option α → Bool
  | none, none => true
  | some a, some b => same a b
  | _, _ => false

def Literal.same : Literal → Literal → Bool
  | .nil, .nil => true
  | .boolean a, .boolean b => a == b
  | .integer a, .integer b => a == b
  | .decimal a, .decimal b => a == b
  | .character a, .character b => a == b
  | .string a, .string b => a == b
  | _, _ => false

def Variable.same (a b : Variable) : Bool :=
  a.name == b.name && a.javaName == b.javaName && a.type == b.type

def SignatureOf.same (a b : Signature) : Bool :=
  a.name == b.name && a.javaName == b.javaName && sameItems (· == ·) a.parameters b.parameters &&
    a.returns == b.returns

def Note.same (a b : Note) : Bool :=
  a.span == b.span && sameSlot (· == ·) a.type b.type

mutual

def Expression.same : Expression → Expression → Bool
  | .literal n a, .literal m b => n.same m && a.same b
  | .group n a, .group m b => n.same m && a.same b
  | .binary n o a b, .binary m p c d => n.same m && o == p && a.same c && b.same d
  | .access n x v, .access m y w => n.same m && x == y && sameSlot Variable.same v w
  | .memberAccess n a x v, .memberAccess m b y w =>
    n.same m && a.same b && x == y && sameSlot Variable.same v w
  | .call n x as f, .call m y bs g =>
    n.same m && x == y && sameExpressions as bs && sameSlot SignatureOf.same f g
  | .memberCall n a x as f, .memberCall m b y bs g =>
    n.same m && a.same b && x == y && sameExpressions as bs && sameSlot SignatureOf.same f g
  | _, _ => false

def sameExpressions : List Expression → List Expression → Bool
  | [], [] => true
  | a :: as, b :: bs => a.same b && sameExpressions as bs
  | _, _ => false

end

def Declaration.same (a b : Declaration) : Bool :=
  a.name == b.name && a.typeName == b.typeName && sameSlot Expression.same a.value b.value &&
    a.span == b.span && sameSlot Variable.same a.binding b.binding

mutual

def Statement.same : Statement → Statement → Bool
  | .expression a, .expression b => a.same b
  | .declaration a, .declaration b => a.same b
  | .assignment a b, .assignment c d => a.same c && b.same d
  | .conditional a as bs, .conditional b cs ds => a.same b && sameBodies as cs && sameBodies bs ds
  | .forEach x a as, .forEach y b bs => x == y && a.same b && sameBodies as bs
  | .loop a as, .loop b bs => a.same b && sameBodies as bs
  | .result a, .result b => a.same b
  | _, _ => false

def sameBodies : List Statement → List Statement → Bool
  | [], [] => true
  | a :: as, b :: bs => a.same b && sameBodies as bs
  | _, _ => false

end

def Method.same (a b : Method) : Bool :=
  a.name == b.name && a.parameters == b.parameters && a.returnTypeName == b.returnTypeName &&
    sameBodies a.body b.body && a.span == b.span && sameSlot SignatureOf.same a.binding b.binding

def Program.same (a b : Program) : Bool :=
  sameItems Declaration.same a.fields b.fields && sameItems Method.same a.methods b.methods

end Primer
