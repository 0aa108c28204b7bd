import Primer.Environment.Basic
import Primer.Evaluation.Statement

/-!
# Running programs

A run defines the native functions, evaluates the fields in order, defines the methods and calls
`main`.  Methods may call themselves, so a run takes a bound: it limits how deep calls nest and how
often a `WHILE` loop goes round.  A run that ends within a bound ends the same way within every
larger one.
-/

namespace Primer

/-- Defines the parameters of a method, in order. -/
def Method.bindParameters (method : Method) (arguments : List Value) : Eval Unit :=
  Eval.changeScope fun scope =>
    (method.parameters.zip arguments).foldlM
      (fun scope (parameter, value) => scope.addVariable parameter.name value) scope

/-- The value that a method returns: nil when its body ends without returning. -/
def Completion.result : Completion → Value
  | .completed => .nil
  | .returned value => value

/-- Calls a method.  Its body sees the root frame and its parameters. -/
def Method.call : (bound : Nat) → Method → List Value → Eval Value
  | 0, _, _ => Eval.exhausted
  | bound + 1, method, arguments =>
    if method.parameters.length = arguments.length then do
      let completion ← Eval.atRoot <| Eval.nested do
        method.bindParameters arguments
        Statement.executeAll (Method.call bound) bound method.body
      return completion.result
    else
      Eval.fail (.arityMismatch method.name method.parameters.length arguments.length)

/-- Does a step for every item of a list, in order. -/
def Eval.each {α : Type} (step : α → Eval Unit) : List α → Eval Unit
  | [] => pure ()
  | item :: items => do
    step item
    Eval.each step items

/-- Defines the native functions. -/
def Environment.define (environment : Environment) : Eval Unit :=
  Eval.each (fun function =>
    Eval.changeScope (·.addFunction function.signature.key (.native function.body)))
    environment.functions

/-- Runs a program from its first field to the value of `main`. -/
def Program.execute (environment : Environment) (bound : Nat) (program : Program) : Eval Int := do
  environment.define
  Eval.each (Declaration.execute (Method.call bound)) program.fields
  Eval.each (fun method => Eval.changeScope (·.addFunction method.key (.defined method)))
    program.methods
  let main ← fun machine =>
    match machine.scope.getFunction ⟨"main", 0⟩ with
    | .ok main => (.value main, machine)
    | .error _ => (.error .missingMain, machine)
  match ← main.apply (Method.call bound) [] with
  | .integer value => return value
  | other => Eval.fail (.mainNotInteger other.typeName)

/-- What a finished run leaves: the value of `main` and the lines printed. -/
structure RunResult where
  value : Int
  output : List String
deriving DecidableEq, Repr

/-- Runs a program in an environment.  A failing run keeps nothing but its error. -/
def Program.run (environment : Environment) (bound : Nat) (program : Program) :
    Outcome RunError RunResult :=
  match program.execute environment bound {} with
  | (.value value, machine) => .value ⟨value, machine.effects.output.toList⟩
  | (.error error, _) => .error error
  | (.exhausted, _) => .exhausted

end Primer
