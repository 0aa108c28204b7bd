import Primer.Environment.Basic
import Primer.Scope
import Primer.Typing.Rules

/-!
# Checking a program and filling its slots

Checking walks a program in source order, finds the meaning of every name and the type of every
expression, and writes both into the slots of the tree.  The walk stops at the first error, and
what it has written until then stays: an `Attempt` is the tree as far as it was filled, together
with the result.  A slot is filled once; finding one that is already filled is an error too.

A method sees itself and the methods before it, and all fields.
-/

namespace Primer

/-- What names mean while a program is checked. -/
abbrev StaticScope := Scope Variable Signature

/-- The tree that a walk leaves behind, and how the walk ended. -/
structure Attempt (τ α : Type) where
  tree : τ
  result : Except CheckError α

namespace Attempt

variable {τ σ α β : Type}

def succeed (tree : τ) (value : α) : Attempt τ α :=
  ⟨tree, .ok value⟩

def fail (tree : τ) (error : TypingError) : Attempt τ α :=
  ⟨tree, .error (.typing error)⟩

/-- Goes on from the walk of a part.  If it failed, `rebuild` puts the part back in its place. -/
def andThen (part : Attempt σ α) (rebuild : σ → τ) (next : σ → α → Attempt τ β) : Attempt τ β :=
  match part.result with
  | .error error => ⟨rebuild part.tree, .error error⟩
  | .ok value => next part.tree value

/-- Goes on with the meaning of a name. -/
def naming (tree : τ) (found : Except NamingError α) (next : α → Attempt τ β) : Attempt τ β :=
  match found with
  | .error error => ⟨tree, .error (.naming error)⟩
  | .ok value => next value

/-- Goes on with the outcome of a typing rule. -/
def typing (tree : τ) (outcome : Except TypingError α) (next : α → Attempt τ β) : Attempt τ β :=
  match outcome with
  | .error error => .fail tree error
  | .ok value => next value

/-- Fills an empty slot; `rebuild` puts its content in place. -/
def fill (slot : Option α) (value : α) (rebuild : Option α → τ) (next : τ → Attempt τ β) :
    Attempt τ β :=
  match slot with
  | some _ => .fail (rebuild slot) .alreadyResolved
  | none => next (rebuild (some value))

/-- Walks a list from left to right; every walk starts where the one before ended. -/
def each (walk : τ → α → Attempt τ α) : List τ → α → Attempt (List τ) α
  | [], state => .succeed [] state
  | tree :: trees, state =>
    (walk tree state).andThen (· :: trees) fun tree state =>
      (each walk trees state).andThen (tree :: ·) fun trees state =>
        .succeed (tree :: trees) state

end Attempt

/-! ## Expressions -/

/-- Fills the type slot of an expression, the last step of its walk. -/
def Note.settle (note : Note) (type : Ty) (rebuild : Note → Expression) : Attempt Expression Ty :=
  Attempt.fill note.type type (fun slot => rebuild { note with type := slot }) fun tree =>
    .succeed tree type

mutual

/-- Checks an expression and gives its type. -/
def Expression.resolve (scope : StaticScope) : Expression → Attempt Expression Ty
  | .literal note value =>
    .typing (.literal note value) value.type fun type =>
      note.settle type (.literal · value)
  | .group note inner =>
    (inner.resolve scope).andThen (.group note) fun inner type =>
      note.settle type (.group · inner)
  | .binary note operator left right =>
    (left.resolve scope).andThen (.binary note operator · right) fun left leftType =>
      (right.resolve scope).andThen (.binary note operator left) fun right rightType =>
        .typing (.binary note operator left right) (operator.type leftType rightType) fun type =>
          note.settle type (.binary · operator left right)
  | .access note name binding =>
    .naming (.access note name binding) (scope.getVariable name) fun found =>
      .fill binding found (.access note name) fun _ =>
        note.settle found.type (.access · name (some found))
  | .memberAccess note receiver name binding =>
    (receiver.resolve scope).andThen (.memberAccess note · name binding) fun receiver owner =>
      .naming (.memberAccess note receiver name binding) (owner.field name) fun type =>
        .fill binding ⟨name, name, type⟩ (.memberAccess note receiver name) fun _ =>
          note.settle type (.memberAccess · receiver name (some ⟨name, name, type⟩))
  | .call note name arguments binding =>
    .naming (.call note name arguments binding)
      (scope.getFunction ⟨name, arguments.length⟩) fun signature =>
        (Expression.resolveArguments scope arguments signature.parameters).andThen
          (.call note name · binding) fun arguments _ =>
            .fill binding signature (.call note name arguments) fun _ =>
              note.settle signature.returns (.call · name arguments (some signature))
  | .memberCall note receiver name arguments binding =>
    (receiver.resolve scope).andThen (.memberCall note · name arguments binding)
      fun receiver owner =>
        .naming (.memberCall note receiver name arguments binding)
          (owner.method ⟨name, arguments.length⟩) fun method =>
            (Expression.resolveArguments scope arguments method.signature.parameters).andThen
              (.memberCall note receiver name · binding) fun arguments _ =>
                .fill binding method.signature (.memberCall note receiver name arguments) fun _ =>
                  note.settle method.signature.returns
                    (.memberCall · receiver name arguments (some method.signature))

/-- Checks arguments against the types of the parameters, one after the other. -/
def Expression.resolveArguments (scope : StaticScope) :
    List Expression → List Ty → Attempt (List Expression) Unit
  | argument :: arguments, parameter :: parameters =>
    (argument.resolve scope).andThen (· :: arguments) fun argument type =>
      .typing (argument :: arguments) (parameter.mustAccept type) fun _ =>
        (Expression.resolveArguments scope arguments parameters).andThen (argument :: ·)
          fun arguments _ => .succeed (argument :: arguments) ()
  | arguments, _ => .succeed arguments ()

end

/-! ## Declarations and statements -/

/-- The type of a declaration from its declared type and the type of its value. -/
def Declaration.type (name : String) : Option Ty → Option Ty → Except TypingError Ty
  | some declared, some initial => do
    declared.mustAccept initial
    return declared
  | some type, none | none, some type => .ok type
  | none, none => .error (.untypedDeclaration name)

/-- Checks the value of a declaration, if it has one. -/
def Declaration.resolveValue (declaration : Declaration) (scope : StaticScope) :
    Attempt Declaration (Option Ty) :=
  match declaration.value with
  | none => .succeed declaration none
  | some value =>
    (value.resolve scope).andThen (fun value => { declaration with value := some value })
      fun value type => .succeed { declaration with value := some value } (some type)

/-- Checks a declaration and defines its variable. -/
def Declaration.resolve (types : Registry) (declaration : Declaration) (scope : StaticScope) :
    Attempt Declaration StaticScope :=
  .naming declaration (declaration.typeName.mapM types.get) fun declared =>
    (declaration.resolveValue scope).andThen id fun declaration initial =>
      .typing declaration (Declaration.type declaration.name declared initial) fun type =>
        let found : Variable := ⟨declaration.name, declaration.name, type⟩
        .naming declaration (scope.addVariable declaration.name found) fun scope =>
          .fill declaration.binding found (fun slot => { declaration with binding := slot })
            fun declaration => .succeed declaration scope

/-- Only calls may stand as a statement. -/
def Expression.isCall : Expression → Bool
  | .call .. | .memberCall .. => true
  | _ => false

/-- Only accesses may be assigned to. -/
def Expression.isAccess : Expression → Bool
  | .access .. | .memberAccess .. => true
  | _ => false

mutual

/-- Checks a statement of a method that returns `returns`, and gives the scope behind it. -/
def Statement.resolve (types : Registry) (returns : Ty) :
    Statement → StaticScope → Attempt Statement StaticScope
  | .expression value, scope =>
    if value.isCall then
      (value.resolve scope).andThen .expression fun value _ => .succeed (.expression value) scope
    else
      .fail (.expression value) .notAStatement
  | .declaration decl, scope =>
    (decl.resolve types scope).andThen .declaration fun decl scope =>
      .succeed (.declaration decl) scope
  | .assignment target value, scope =>
    if target.isAccess then
      (target.resolve scope).andThen (.assignment · value) fun target targetType =>
        (value.resolve scope).andThen (.assignment target) fun value valueType =>
          .typing (.assignment target value) (targetType.mustAccept valueType) fun _ =>
            .succeed (.assignment target value) scope
    else
      .fail (.assignment target value) .invalidAssignmentTarget
  | .conditional condition thenBody elseBody, scope =>
    (condition.resolve scope).andThen (.conditional · thenBody elseBody) fun condition type =>
      let tree := Statement.conditional condition thenBody elseBody
      .typing tree (Ty.boolean.mustAccept type) fun _ =>
        if thenBody.isEmpty then
          .fail tree (.emptyBody .conditional)
        else
          (Statement.resolveAll types returns thenBody scope.push).andThen
            (.conditional condition · elseBody) fun thenBody _ =>
              (Statement.resolveAll types returns elseBody scope.push).andThen
                (.conditional condition thenBody) fun elseBody _ =>
                  .succeed (.conditional condition thenBody elseBody) scope
  | .forEach name range body, scope =>
    (range.resolve scope).andThen (.forEach name · body) fun range type =>
      let tree := Statement.forEach name range body
      .typing tree (Ty.integerIterable.mustAccept type) fun _ =>
        if body.isEmpty then
          .fail tree (.emptyBody .forEach)
        else
          .naming tree (scope.push.addVariable name ⟨name, name, .integer⟩) fun inside =>
            (Statement.resolveAll types returns body inside).andThen (.forEach name range)
              fun body _ => .succeed (.forEach name range body) scope
  | .loop condition body, scope =>
    (condition.resolve scope).andThen (.loop · body) fun condition type =>
      .typing (.loop condition body) (Ty.boolean.mustAccept type) fun _ =>
        (Statement.resolveAll types returns body scope.push).andThen (.loop condition)
          fun body _ => .succeed (.loop condition body) scope
  | .result value, scope =>
    (value.resolve scope).andThen .result fun value type =>
      .typing (.result value) (returns.mustAccept type) fun _ =>
        .succeed (.result value) scope

/-- Checks the statements of a block in order. -/
def Statement.resolveAll (types : Registry) (returns : Ty) :
    List Statement → StaticScope → Attempt (List Statement) StaticScope
  | [], scope => .succeed [] scope
  | statement :: statements, scope =>
    (statement.resolve types returns scope).andThen (· :: statements) fun statement scope =>
      (Statement.resolveAll types returns statements scope).andThen (statement :: ·)
        fun statements scope => .succeed (statement :: statements) scope

end

/-! ## Methods and programs -/

/-- The signature that a method declares.  Without a return type it returns nil. -/
def Method.signature (types : Registry) (method : Method) : Except NamingError Signature := do
  let parameters ← method.parameters.mapM fun parameter => types.get parameter.typeName
  let returns ← match method.returnTypeName with
    | some name => types.get name
    | none => pure .nil
  return ⟨method.name, method.name, parameters, returns⟩

/-- Defines the parameters of a method, in order. -/
def Method.defineParameters (method : Method) (signature : Signature) (scope : StaticScope) :
    Except NamingError StaticScope :=
  (method.parameters.zip signature.parameters).foldlM
    (fun scope (parameter, type) =>
      scope.addVariable parameter.name ⟨parameter.name, parameter.name, type⟩) scope

/-- Checks a method and defines it.  It is defined before its body is checked, so it may call
itself. -/
def Method.resolve (types : Registry) (method : Method) (scope : StaticScope) :
    Attempt Method StaticScope :=
  .naming method (method.signature types) fun signature =>
    .naming method (scope.addFunction signature.key signature) fun scope =>
      .fill method.binding signature (fun slot => { method with binding := slot }) fun method =>
        .naming method (method.defineParameters signature scope.push) fun inside =>
          (Statement.resolveAll types signature.returns method.body inside).andThen
            (fun body => { method with body }) fun body _ => .succeed { method with body } scope

/-- The scope that a program starts from: the native functions. -/
def Environment.staticScope (environment : Environment) : Except NamingError StaticScope :=
  environment.functions.foldlM
    (fun scope function => scope.addFunction function.signature.key function.signature) {}

/-- Demands a function `main` without parameters that returns an integer. -/
def StaticScope.requireMain (scope : StaticScope) : Except TypingError Unit :=
  match scope.getFunction ⟨"main", 0⟩ with
  | .error _ => .error .missingMain
  | .ok main => Ty.integer.mustAccept main.returns

/-- Checks a program in an environment. -/
def Program.resolve (environment : Environment) (program : Program) : Attempt Program Unit :=
  .naming program environment.staticScope fun scope =>
    (Attempt.each (Declaration.resolve environment.types) program.fields scope).andThen
      (fun fields => { program with fields }) fun fields scope =>
        (Attempt.each (Method.resolve environment.types) program.methods scope).andThen
          (fun methods => ⟨fields, methods⟩) fun methods scope =>
            .typing ⟨fields, methods⟩ (StaticScope.requireMain scope) fun _ =>
              .succeed ⟨fields, methods⟩ ()

end Primer
