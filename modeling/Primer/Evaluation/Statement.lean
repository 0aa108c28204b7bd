import Primer.Evaluation.Expression

/-!
# Executing statements

A statement either runs to its end or returns from the method it stands in.  RunResult follows the
structure of the statement, with two exceptions: a `FOR` loop goes through its range, and a
`WHILE` loop may go on for ever, so it takes a bound on the number of its rounds.
-/

namespace Primer

/-- How a statement ended. -/
inductive Completion where
  | completed
  | returned (value : Value)

/-- Does `body` for `count` integers from `current` on, each in a frame of its own that binds
`name` to the integer, until one of them returns. -/
def Eval.forEach (name : String) (body : Eval Completion) :
    (count : Nat) → (current : Int) → Eval Completion
  | 0, _ => pure .completed
  | count + 1, current => fun machine =>
    let round : Eval Completion := Eval.nested do
      Eval.changeScope (·.addVariable name (.integer current))
      body
    match round machine with
    | (.value .completed, machine) => Eval.forEach name body count (current + 1) machine
    | stopped => stopped

/-- Does `body` in a frame of its own for as long as `condition` holds, until it returns.  The
condition is asked at most `bound` times. -/
def Eval.whileTrue (condition : Eval Bool) (body : Eval Completion) :
    (bound : Nat) → Eval Completion
  | 0 => Eval.exhausted
  | bound + 1 => fun machine =>
    match condition machine with
    | (.value true, machine) =>
      match Eval.nested body machine with
      | (.value .completed, machine) => Eval.whileTrue condition body bound machine
      | stopped => stopped
    | (.value false, machine) => (.value .completed, machine)
    | (.error error, machine) => (.error error, machine)
    | (.exhausted, machine) => (.exhausted, machine)

/-- Evaluates the value of a declaration, nil without one, and defines its variable. -/
def Declaration.execute (call : MethodCall) (declaration : Declaration) : Eval Unit := do
  let value ← match declaration.value with
    | some value => value.evaluate call
    | none => pure .nil
  Eval.changeScope (·.addVariable declaration.name value)

/-- Assigns the value of an expression to a variable or a field. -/
def Expression.assign (call : MethodCall) (target value : Expression) : Eval Unit :=
  match target with
  | .access _ name _ => do
    let value ← value.evaluate call
    Eval.changeScope (·.assign name value)
  | .memberAccess _ receiver name _ => do
    let owner ← receiver.evaluate call
    let value ← value.evaluate call
    Eval.writeField owner name value
  | _ => Eval.fail (.unexpectedType "assignable access" "expression")

mutual

/-- Executes a statement; `rounds` bounds every `WHILE` loop in it. -/
def Statement.execute (call : MethodCall) (rounds : Nat) : Statement → Eval Completion
  | .expression value => do
    let _ ← value.evaluate call
    return .completed
  | .declaration decl => do
    decl.execute call
    return .completed
  | .assignment target value => do
    target.assign call value
    return .completed
  | .conditional condition thenBody elseBody => do
    if ← Eval.truth (condition.evaluate call) then
      Eval.nested (Statement.executeAll call rounds thenBody)
    else
      Eval.nested (Statement.executeAll call rounds elseBody)
  | .forEach name range body => do
    match ← range.evaluate call with
    | .range range =>
      Eval.forEach name (Statement.executeAll call rounds body) range.length range.start
    | other => Eval.fail (.notIterable other.typeName)
  | .loop condition body =>
    Eval.whileTrue (Eval.truth (condition.evaluate call)) (Statement.executeAll call rounds body)
      rounds
  | .result value => do
    return .returned (← value.evaluate call)

/-- Executes the statements of a block up to the first that returns. -/
def Statement.executeAll (call : MethodCall) (rounds : Nat) : List Statement → Eval Completion
  | [] => pure .completed
  | statement :: statements => do
    match ← statement.execute call rounds with
    | .completed => Statement.executeAll call rounds statements
    | .returned value => return .returned value

end

end Primer
