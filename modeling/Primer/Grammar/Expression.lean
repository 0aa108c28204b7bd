import Primer.Grammar.Literal

/-!
# Reading expressions

From the loosest to the tightest: logical operators, comparisons, sums, products, member accesses,
and single operands.  Operators of one level group to the left.

An operand may hold whole expressions in parentheses.  `expressionWithin` takes a bound on how deep
they nest.  Each of them stands behind a token of its own, so the number of tokens is bound enough:
`expression` uses it, and where no token is left there is no expression either.
-/

namespace Primer.Reader

/-- What may follow an operand: a member's name, its arguments if it is called, and where it
ends. -/
structure Suffix where
  name : String
  arguments : Option (List Expression)
  stop : Nat

/-- The member that `suffix` selects from `receiver`. -/
def Suffix.attach (receiver : Expression) (suffix : Suffix) : Expression :=
  let note : Note := { span := ⟨receiver.span.start, suffix.stop⟩ }
  match suffix.arguments with
  | none => .memberAccess note receiver suffix.name none
  | some arguments => .memberCall note receiver suffix.name arguments none

/-- What the first token of an operand makes of it. -/
inductive OperandStart where
  | literal (span : Span) (decoded : Except SyntaxError Literal)
  | parenthesis (start : Nat)
  | name (span : Span) (name : String)

def OperandStart.ofToken? (token : Token) : Option OperandStart :=
  match token.literal? with
  | some decoded => some (.literal token.span decoded)
  | none =>
    if token.text = "(" then
      some (.parenthesis token.span.start)
    else if token.kind = .identifier then
      some (.name token.span token.text)
    else
      none

/-- A single operand: a literal, an expression in parentheses, a name or a call. -/
def operand (expression : Reader Expression) : Reader Expression := do
  match ← expect .expression OperandStart.ofToken? with
  | .literal span decoded =>
    let literal ← decoded
    return .literal { span } literal
  | .parenthesis start =>
    let inner ← expression
    let _ ← word ")"
    return .group { span := ← spanFrom start } inner
  | .name span name =>
    match ← after "(" (commaSeparated expression) with
    | none => return .access { span } name none
    | some arguments => return .call { span := ← spanFrom span.start } name arguments none

/-- A member's name and its arguments. -/
def suffix (expression : Reader Expression) : Reader Suffix := do
  let name ← identifier
  let arguments ← after "(" (commaSeparated expression)
  return ⟨name, arguments, ← lastEnd⟩

/-- An operand and the members selected from it, one after the other. -/
def selection (expression : Reader Expression) : Reader Expression := do
  let first ← operand expression
  let suffixes ← many (Cursor.take? (hasText ".")) fun _ => suffix expression
  return suffixes.foldl Suffix.attach first

/-- The operator that a token is, if it binds as tightly as `precedence` says. -/
def operatorAt (precedence : Precedence) (token : Token) : Option Operator :=
  (Operator.ofSymbol? token.text).filter (·.precedence = precedence)

/-- Operands with operators of one level between them. -/
def level (precedence : Precedence) (tighter : Reader Expression) : Reader Expression := do
  let first ← tighter
  let others ← many (Cursor.take? (operatorAt precedence)) fun operator => do
    return (operator, ← tighter)
  return others.foldl (fun left (operator, right) => .combine operator left right) first

/-- An expression in which expressions in parentheses nest less than `bound` deep. -/
def expressionWithin : Nat → Reader Expression
  | 0 => fail .expression
  | bound + 1 =>
    level .logical (level .comparison (level .additive (level .multiplicative
      (selection (expressionWithin bound)))))

/-- An expression. -/
def expression : Reader Expression :=
  fun cursor => expressionWithin cursor.rest.length cursor

end Primer.Reader
