import Primer.Evaluation.Machine
import Primer.Value.Operators

/-!
# Evaluating expressions

Evaluation follows the structure of the expression; only a call of a method of the program leads
elsewhere, and how to do that is a parameter.  Operands, arguments and receivers are evaluated from
left to right.  The slots of the tree are not looked at, so evaluation does not ask whether a
program was checked.
-/

namespace Primer

/-- How to call a method of the program. -/
abbrev MethodCall := Method → List Value → Eval Value

/-- The value that a literal stands for. -/
def Literal.toValue : Literal → Value
  | .nil => .nil
  | .boolean value => .boolean value
  | .integer value => .integer value
  | .decimal value => .decimal value
  | .character value => .character value
  | .string value => .string value

/-- Calls a function. -/
def FunctionBody.apply (call : MethodCall) (function : FunctionBody) (arguments : List Value) :
    Eval Value :=
  match function with
  | .native body => Eval.ofNative (body arguments)
  | .defined method => call method arguments

/-- Evaluates a condition or an operand of a logical operator. -/
def Eval.truth (step : Eval Value) : Eval Bool := do
  Eval.ofExcept (← step).toBool

mutual

/-- The value of an expression. -/
def Expression.evaluate (call : MethodCall) : Expression → Eval Value
  | .literal _ value => pure value.toValue
  | .group _ inner => inner.evaluate call
  | .binary _ .and left right => do
    if ← Eval.truth (left.evaluate call) then
      return .boolean (← Eval.truth (right.evaluate call))
    else
      return .boolean false
  | .binary _ .or left right => do
    if ← Eval.truth (left.evaluate call) then
      return .boolean true
    else
      return .boolean (← Eval.truth (right.evaluate call))
  | .binary _ operator left right => do
    let left ← left.evaluate call
    let right ← right.evaluate call
    Eval.ofExcept (operator.apply left right)
  | .access _ name _ => Eval.inspectScope (·.getVariable name)
  | .memberAccess _ receiver name _ => do
    let owner ← receiver.evaluate call
    Eval.readField owner name
  | .call _ name arguments _ => do
    let arguments ← Expression.evaluateAll call arguments
    let function ← Eval.inspectScope (·.getFunction ⟨name, arguments.length⟩)
    function.apply call arguments
  | .memberCall _ receiver name arguments _ => do
    let owner ← receiver.evaluate call
    let arguments ← Expression.evaluateAll call arguments
    Eval.callMember owner name arguments

/-- The values of a list of expressions. -/
def Expression.evaluateAll (call : MethodCall) : List Expression → Eval (List Value)
  | [] => pure []
  | expression :: expressions => do
    let value ← expression.evaluate call
    let values ← Expression.evaluateAll call expressions
    return value :: values

end

end Primer
