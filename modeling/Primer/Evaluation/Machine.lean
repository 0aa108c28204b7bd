import Primer.Evaluation.Store
import Primer.Scope
import Primer.Syntax.Basic

/-!
# The state of a run

A machine is the open scopes, the objects and the output.  `Eval α` is a step that computes an `α`.
It ends with a value, with an error, or because the bound on its work was used up; the machine it
leaves is there in every case.
-/

namespace Primer

/-- What a function name can mean while a program runs. -/
inductive FunctionBody where
  | native (body : List Value → Native Ty Value)
  | defined (method : Method)

/-- The state of a run. -/
structure Machine where
  scope : Scope Value FunctionBody := {}
  effects : Effects := {}

/-- How bounded work ended.  `exhausted` says that the bound was too small, and nothing more. -/
inductive Outcome (ε α : Type) where
  | value (value : α)
  | error (error : ε)
  | exhausted

/-- A step of a run. -/
def Eval (α : Type) : Type :=
  Machine → Outcome RunError α × Machine

namespace Eval

variable {α β : Type}

/-- Does `first`, and goes on with its value if it has one. -/
@[always_inline, inline]
def bind (first : Eval α) (next : α → Eval β) : Eval β :=
  fun machine =>
    match first machine with
    | (.value value, machine) => next value machine
    | (.error error, machine) => (.error error, machine)
    | (.exhausted, machine) => (.exhausted, machine)

@[always_inline]
instance : Monad Eval where
  pure value := fun machine => (.value value, machine)
  bind := bind

def fail (error : RunError) : Eval α :=
  fun machine => (.error error, machine)

/-- Gives up because the bound is used up. -/
def exhausted : Eval α :=
  fun machine => (.exhausted, machine)

/-- Goes on with a result that is already there. -/
def ofExcept : Except RunError α → Eval α
  | .ok value => pure value
  | .error error => fail error

/-- Goes on with the meaning of a name. -/
def ofNaming : Except NamingError α → Eval α
  | .ok value => pure value
  | .error error => fail (.naming error)

/-! ## Scopes -/

/-- Reads something from the open scopes. -/
def inspectScope (look : Scope Value FunctionBody → Except NamingError α) : Eval α :=
  fun machine => ofNaming (look machine.scope) machine

/-- Changes the open scopes; a failing change leaves them as they are. -/
def changeScope
    (change : Scope Value FunctionBody → Except NamingError (Scope Value FunctionBody)) :
    Eval Unit :=
  fun machine =>
    match change machine.scope with
    | .ok scope => (.value (), { machine with scope })
    | .error error => (.error (.naming error), machine)

/-- Does `body` in a new innermost frame, which is closed again however `body` ends. -/
def nested (body : Eval α) : Eval α :=
  fun ⟨scope, effects⟩ =>
    let (outcome, after) := body ⟨scope.push, effects⟩
    (outcome, { after with scope := after.scope.pop })

/-- Does `body` with the root frame alone open; the other frames are put back however `body`
ends. -/
def atRoot (body : Eval α) : Eval α :=
  fun ⟨scope, effects⟩ =>
    let (outcome, after) := body ⟨scope.rootOnly, effects⟩
    (outcome, { after with scope := after.scope.withInner scope.inner })

/-! ## Objects and native code -/

/-- Carries out native code; the scopes are out of its reach. -/
def ofNative (code : Native Ty α) : Eval α :=
  fun ⟨scope, effects⟩ =>
    let (result, effects) := code.run effects
    ofExcept result ⟨scope, effects⟩

/-- The value of a field of a value that has to be an object. -/
def readField (owner : Value) (name : String) : Eval Value :=
  match owner with
  | .object ref => ofNative (Native.readField ref name)
  | other => fail (.unexpectedType "object" other.typeName)

/-- Changes a field of a value that has to be an object. -/
def writeField (owner : Value) (name : String) (value : Value) : Eval Unit :=
  match owner with
  | .object ref => ofNative (Native.writeField ref name value)
  | other => fail (.unexpectedType "object" other.typeName)

/-- Calls a method of a value that has to be an object. -/
def callMember (owner : Value) (name : String) (arguments : List Value) : Eval Value :=
  match owner with
  | .object ref => fun machine =>
    match machine.effects.store.method ref ⟨name, arguments.length⟩ with
    | .ok method => ofNative (method.body ref arguments) machine
    | .error error => (.error (.naming error), machine)
  | other => fail (.unexpectedType "object" other.typeName)

end Eval

end Primer
