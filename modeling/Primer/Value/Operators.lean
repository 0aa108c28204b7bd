import Primer.Syntax.Operator
import Primer.Value.Basic

/-!
# Operators on values

Equality holds of any two values.  The other operators are defined on two values of one kind only:
the order on integers, decimals, characters and strings, arithmetic on integers and on decimals, and
`+` also on strings.  The logical operators do not appear here: they may leave their right operand
unevaluated.
-/

namespace Primer

namespace Operator

/-- The complaint that an operator has no meaning for its operands. -/
def undefinedFor (operator : Operator) (left right : Value) : RunError :=
  .invalidOperands operator.symbol left.typeName right.typeName

/-- Whether an ordering operator holds of operands that compare as `ordering`. -/
def holds? (operator : Operator) (ordering : Ordering) : Option Bool :=
  match operator with
  | .less => some (ordering == .lt)
  | .lessEqual => some (ordering != .gt)
  | .greater => some (ordering == .gt)
  | .greaterEqual => some (ordering != .lt)
  | _ => none

/-- Integer arithmetic.  The quotient is cut off toward zero. -/
def onIntegers? (operator : Operator) (a b : Int) : Option (Except RunError Int) :=
  match operator with
  | .add => some (.ok (a + b))
  | .subtract => some (.ok (a - b))
  | .multiply => some (.ok (a * b))
  | .divide => some (if b = 0 then .error .divisionByZero else .ok (a.tdiv b))
  | _ => none

/-- Decimal arithmetic. -/
def onDecimals? (operator : Operator) (a b : Decimal) : Option (Except RunError Decimal) :=
  match operator with
  | .add => some (.ok (a.add b))
  | .subtract => some (.ok (a.sub b))
  | .multiply => some (.ok (a.mul b))
  | .divide => some (if b.isZero then .error .divisionByZero else .ok (a.div b))
  | _ => none

/-- Arithmetic on two values, and joining two strings. -/
def arithmetic? (operator : Operator) : Value → Value → Option (Except RunError Value)
  | .integer a, .integer b => (operator.onIntegers? a b).map (·.map .integer)
  | .decimal a, .decimal b => (operator.onDecimals? a b).map (·.map .decimal)
  | .string a, .string b => if operator = .add then some (.ok (.string (a ++ b))) else none
  | _, _ => none

/-- The value of a strict operator on two values. -/
def apply (operator : Operator) (left right : Value) : Except RunError Value :=
  match operator with
  | .equal => .ok (.boolean (left == right))
  | .notEqual => .ok (.boolean (left != right))
  | .less | .lessEqual | .greater | .greaterEqual =>
    match (left.compare? right).bind operator.holds? with
    | some result => .ok (.boolean result)
    | none => .error (operator.undefinedFor left right)
  | _ =>
    match operator.arithmetic? left right with
    | some result => result
    | none => .error (operator.undefinedFor left right)

end Operator

end Primer
