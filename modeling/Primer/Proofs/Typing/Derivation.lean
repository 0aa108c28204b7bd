import Mathlib.Data.List.Forall2
import Mathlib.Logic.Function.Basic
import Primer.Environment.Basic
import Primer.Typing.Resolve

/-!
# Typing derivations

The rules by which a program is typed, said without the walk that checks them.  A context is what
names mean at a point of the program: the functions seen so far, and the variables of the blocks
around that point.  A derivation is data: `Expression.Typing context e type` is the type of the ways
in which the rules give `e` that type, and the judgements for statements, methods and programs are
of the same kind.

* There is at most one derivation (`Program.Typing.unique`): what an expression is decides which
  rule applies, and the rules for its parts decide the rest.
* A derivation says what belongs into every slot.  `Program.Typing.annotate` is the program with the
  type or the binding that the derivation has for each of them.
-/

namespace Primer

/-! ## Rules that need no context -/

/-- A value of type `source` may stand where `target` is asked for.  `Any` takes everything and
`Comparable` the ordered types; every other type takes those of its own name. -/
inductive Ty.Assignable : (target source : Ty) → Prop
  | any (source : Ty) : Assignable .any source
  | ordered {source : Ty} :
    source ∈ [.comparable, .integer, .decimal, .character, .string] →
    Assignable .comparable source
  | same {target source : Ty} :
    target ≠ .comparable → target.name = source.name → Assignable target source

/-- The type of a literal.  Integers have 32 bits, decimals have to be finite doubles. -/
inductive Literal.HasType : Literal → Ty → Prop
  | nil : HasType .nil .nil
  | boolean (value : Bool) : HasType (.boolean value) .boolean
  | integer {value : Int} : -2147483648 ≤ value → value ≤ 2147483647 →
    HasType (.integer value) .integer
  | decimal {value : Decimal} : value.fitsDouble = true → HasType (.decimal value) .decimal
  | character (value : Char) : HasType (.character value) .character
  | string (value : String) : HasType (.string value) .string

/-- What an operator makes of two operands, by their types.  Sums and products take two numbers of
one kind; two strings can be added. -/
inductive Operator.Yields (operator : Operator) : (left right result : Ty) → Prop
  | logical {left right : Ty} :
    operator.precedence = .logical → Ty.boolean.Assignable left → Ty.boolean.Assignable right →
    Yields operator left right .boolean
  | comparison {left right : Ty} :
    operator.precedence = .comparison → Ty.comparable.Assignable left →
    Ty.comparable.Assignable right → left.Assignable right → Yields operator left right .boolean
  | arithmetic {type : Ty} :
    operator.precedence ∈ [.additive, .multiplicative] → type ∈ [.integer, .decimal] →
    Yields operator type type type
  | concatenation : operator = .add → Yields operator .string .string .string

/-- Only nominal types have fields. -/
inductive Ty.HasField : Ty → String → Ty → Prop
  | nominal {definition : TypeDefinition} {name : String} {type : Ty} :
    definition.fields.lookup name = some type → HasField (.nominal definition) name type

/-- Only nominal types have methods.  A method is found by its name and the number of its
parameters. -/
inductive Ty.HasMethod : Ty → FunctionKey → Signature → Prop
  | nominal {definition : TypeDefinition} {key : FunctionKey} {method : NativeMethod} :
    definition.methods.find? (·.signature.key == key) = some method →
    HasMethod (.nominal definition) key method.signature

/-! ## Contexts -/

/-- What the variables of a block are bound to. -/
abbrev Block := String → Option Variable

/-- The innermost block that binds the name says what it means. -/
inductive Block.Means (name : String) : List Block → Variable → Prop
  | here {block : Block} {outer : List Block} {found : Variable} :
    block name = some found → Means name (block :: outer) found
  | outside {block : Block} {outer : List Block} {found : Variable} :
    block name = none → Means name outer found → Means name (block :: outer) found

/-- What names mean at a point of a program.  Functions belong to the whole program, variables to
the block that declares them. -/
structure Context where
  functions : FunctionKey → Option Signature
  current : Block
  outer : List Block

namespace Context

def blocks (context : Context) : List Block :=
  context.current :: context.outer

/-- A new block inside the current one. -/
def inner (context : Context) : Context :=
  { context with current := fun _ => none, outer := context.blocks }

/-- A new variable of the current block; its type is `type`. -/
def declare (context : Context) (name : String) (type : Ty) : Context :=
  { context with current := Function.update context.current name (some ⟨name, name, type⟩) }

/-- A new function. -/
def define (context : Context) (signature : Signature) : Context :=
  { context with functions := Function.update context.functions signature.key (some signature) }

/-- New variables of the current block, one for each parameter. -/
def declareAll (context : Context) (parameters : List (Parameter × Ty)) : Context :=
  parameters.foldl (fun context (parameter, type) => context.declare parameter.name type) context

end Context

/-- What a program finds when it begins: the natives. -/
def Environment.context (environment : Environment) : Context where
  functions key :=
    (environment.functions.find? (·.signature.key == key)).map (·.signature)
  current := fun _ => none
  outer := []

/-! ## Expressions -/

mutual

/-- In the context, the expression has the type. -/
inductive Expression.Typing (context : Context) : Expression → Ty → Type
  | literal {note : Note} {value : Literal} {type : Ty} :
    value.HasType type → Typing context (.literal note value) type
  | group {note : Note} {e : Expression} {type : Ty} :
    Typing context e type → Typing context (.group note e) type
  | binary {note : Note} {operator : Operator} {left right : Expression}
      {leftType rightType type : Ty} :
    Typing context left leftType → Typing context right rightType →
    operator.Yields leftType rightType type →
    Typing context (.binary note operator left right) type
  | access {note : Note} {name : String} {slot : Option Variable} (found : Variable) :
    Block.Means name context.blocks found → Typing context (.access note name slot) found.type
  | memberAccess {note : Note} {receiver : Expression} {name : String} {slot : Option Variable}
      {owner type : Ty} :
    Typing context receiver owner → owner.HasField name type →
    Typing context (.memberAccess note receiver name slot) type
  | call {note : Note} {name : String} {args : List Expression} {slot : Option Signature}
      (signature : Signature) :
    context.functions ⟨name, args.length⟩ = some signature →
    ArgumentTyping context args signature.parameters →
    Typing context (.call note name args slot) signature.returns
  | memberCall {note : Note} {receiver : Expression} {name : String} {args : List Expression}
      {slot : Option Signature} {owner : Ty} (signature : Signature) :
    Typing context receiver owner → owner.HasMethod ⟨name, args.length⟩ signature →
    ArgumentTyping context args signature.parameters →
    Typing context (.memberCall note receiver name args slot) signature.returns

/-- There are as many arguments as parameters, and each may stand for its parameter. -/
inductive Expression.ArgumentTyping (context : Context) : List Expression → List Ty → Type
  | nil : ArgumentTyping context [] []
  | cons {argument : Expression} {arguments : List Expression} {type parameter : Ty}
      {parameters : List Ty} :
    Typing context argument type → parameter.Assignable type →
    ArgumentTyping context arguments parameters →
    ArgumentTyping context (argument :: arguments) (parameter :: parameters)

end

namespace Expression

mutual

/-- The expression with its slots filled as the derivation says. -/
def Typing.annotate {context : Context} : {e : Expression} → {type : Ty} →
    Typing context e type → Expression
  | .literal note value, type, .literal _ => .literal { note with type := some type } value
  | .group note _, type, .group inner => .group { note with type := some type } inner.annotate
  | .binary note operator _ _, type, .binary left right _ =>
    .binary { note with type := some type } operator left.annotate right.annotate
  | .access note name _, _, .access found _ =>
    .access { note with type := some found.type } name (some found)
  | .memberAccess note _ name _, type, .memberAccess receiver _ =>
    .memberAccess { note with type := some type } receiver.annotate name (some ⟨name, name, type⟩)
  | .call note name _ _, _, .call signature _ args =>
    .call { note with type := some signature.returns } name args.annotate (some signature)
  | .memberCall note _ name _ _, _, .memberCall signature receiver _ args =>
    .memberCall { note with type := some signature.returns } receiver.annotate name args.annotate
      (some signature)

def ArgumentTyping.annotate {context : Context} : {es : List Expression} → {types : List Ty} →
    ArgumentTyping context es types → List Expression
  | _, _, .nil => []
  | _, _, .cons first _ others => first.annotate :: others.annotate

end

end Expression

/-! ## Declarations and statements -/

/-- The type of a declaration: the one that it names, or that of its value.  With both, the value
has to fit the name. -/
inductive Declaration.TypeTyping (types : Registry) (context : Context) :
    Option String → Option Expression → Ty → Type
  | named {name : String} {type : Ty} :
    types.find? name = some type → TypeTyping types context (some name) none type
  | valued {value : Expression} {type : Ty} :
    value.Typing context type → TypeTyping types context none (some value) type
  | both {name : String} {value : Expression} {type initial : Ty} :
    types.find? name = some type → value.Typing context initial → type.Assignable initial →
    TypeTyping types context (some name) (some value) type

/-- The value with its slots filled. -/
def Declaration.TypeTyping.annotate {types : Registry} {context : Context} :
    {typeName : Option String} → {value : Option Expression} → {type : Ty} →
    TypeTyping types context typeName value type → Option Expression
  | _, _, _, .named _ => none
  | _, _, _, .valued value => some value.annotate
  | _, _, _, .both _ value _ => some value.annotate

/-- The declaration takes the first context to the second.  A block declares a name once. -/
inductive Declaration.Typing (types : Registry) : Context → Declaration → Context → Type
  | declare {context : Context} {decl : Declaration} (type : Ty) :
    TypeTyping types context decl.typeName decl.value type → context.current decl.name = none →
    Typing types context decl (context.declare decl.name type)

def Declaration.Typing.annotate {types : Registry} {context after : Context} {decl : Declaration} :
    decl.Typing types context after → Declaration
  | .declare type value _ =>
    { decl with value := value.annotate, binding := some ⟨decl.name, decl.name, type⟩ }

mutual

/-- The statement, in a method that returns `returns`, takes the first context to the second. -/
inductive Statement.Typing (types : Registry) (returns : Ty) :
    Context → Statement → Context → Type
  | expression {context : Context} {value : Expression} {type : Ty} :
    value.isCall = true → value.Typing context type →
    Typing types returns context (.expression value) context
  | declaration {context after : Context} {decl : Declaration} :
    decl.Typing types context after → Typing types returns context (.declaration decl) after
  | assignment {context : Context} {target value : Expression} {targetType valueType : Ty} :
    target.isAccess = true → target.Typing context targetType → value.Typing context valueType →
    targetType.Assignable valueType →
    Typing types returns context (.assignment target value) context
  | conditional {context : Context} {condition : Expression} {thenBody elseBody : List Statement}
      {type : Ty} :
    condition.Typing context type → Ty.boolean.Assignable type → thenBody ≠ [] →
    BlockTyping types returns context.inner thenBody →
    BlockTyping types returns context.inner elseBody →
    Typing types returns context (.conditional condition thenBody elseBody) context
  | forEach {context : Context} {name : String} {range : Expression} {body : List Statement}
      {type : Ty} :
    range.Typing context type → Ty.integerIterable.Assignable type → body ≠ [] →
    BlockTyping types returns (context.inner.declare name .integer) body →
    Typing types returns context (.forEach name range body) context
  | loop {context : Context} {condition : Expression} {body : List Statement} {type : Ty} :
    condition.Typing context type → Ty.boolean.Assignable type →
    BlockTyping types returns context.inner body →
    Typing types returns context (.loop condition body) context
  | result {context : Context} {value : Expression} {type : Ty} :
    value.Typing context type → returns.Assignable type →
    Typing types returns context (.result value) context

/-- The statements follow each other, beginning in the context. -/
inductive Statement.BlockTyping (types : Registry) (returns : Ty) :
    Context → List Statement → Type
  | nil {context : Context} : BlockTyping types returns context []
  | cons {context after : Context} {statement : Statement} {statements : List Statement} :
    Typing types returns context statement after → BlockTyping types returns after statements →
    BlockTyping types returns context (statement :: statements)

end

namespace Statement

mutual

/-- The statement with its slots filled as the derivation says. -/
def Typing.annotate {types : Registry} {returns : Ty} : {context after : Context} →
    {s : Statement} → Typing types returns context s after → Statement
  | _, _, _, .expression _ value => .expression value.annotate
  | _, _, _, .declaration decl => .declaration decl.annotate
  | _, _, _, .assignment _ target value _ => .assignment target.annotate value.annotate
  | _, _, _, .conditional condition _ _ thenBody elseBody =>
    .conditional condition.annotate thenBody.annotate elseBody.annotate
  | _, _, .forEach name _ _, .forEach range _ _ body =>
    .forEach name range.annotate body.annotate
  | _, _, _, .loop condition _ body => .loop condition.annotate body.annotate
  | _, _, _, .result value _ => .result value.annotate

def BlockTyping.annotate {types : Registry} {returns : Ty} : {context : Context} →
    {ss : List Statement} → BlockTyping types returns context ss → List Statement
  | _, _, .nil => []
  | _, _, .cons first others => first.annotate :: others.annotate

end

end Statement

/-! ## Methods and programs -/

/-- The signature that a method declares.  Without a return type it returns nil. -/
structure Method.HasSignature (types : Registry) (method : Method) (signature : Signature) :
    Prop where
  name : signature.name = method.name
  javaName : signature.javaName = method.name
  parameters : List.Forall₂ (fun parameter type => types.find? parameter.typeName = some type)
    method.parameters signature.parameters
  returns : method.returnTypeName.elim (signature.returns = .nil)
    fun name => types.find? name = some signature.returns

/-- The method takes the first context to the second.  Its body sees the method itself, and its
parameters as the first variables of a new block. -/
inductive Method.Typing (types : Registry) : Context → Method → Context → Type
  | define {context : Context} {method : Method} (signature : Signature) :
    method.HasSignature types signature → context.functions method.key = none →
    (method.parameters.map Parameter.name).Nodup →
    Statement.BlockTyping types signature.returns
      ((context.define signature).inner.declareAll (method.parameters.zip signature.parameters))
      method.body →
    Typing types context method (context.define signature)

def Method.Typing.annotate {types : Registry} {context after : Context} {method : Method} :
    method.Typing types context after → Method
  | .define signature _ _ _ body => { method with binding := some signature, body := body.annotate }

/-- The items of a list follow each other, each in the context that the one before leaves. -/
inductive Context.Steps {α : Type} (step : Context → α → Context → Type) :
    Context → List α → Context → Type
  | nil {context : Context} : Steps step context [] context
  | cons {context middle after : Context} {item : α} {items : List α} :
    step context item middle → Steps step middle items after →
    Steps step context (item :: items) after

def Context.Steps.annotate {α : Type} {step : Context → α → Context → Type}
    (annotate : ∀ {context item after}, step context item after → α) :
    {context after : Context} → {items : List α} → Steps step context items after → List α
  | _, _, _, .nil => []
  | _, _, _, .cons first others => annotate first :: others.annotate annotate

/-- A program is typed when its fields are, then its methods, each of which sees itself and those
before it, and when there is a function `main` without parameters for an integer. -/
structure Program.Typing (environment : Environment) (program : Program) where
  globals : Context
  complete : Context
  main : Signature
  fields : Context.Steps (Declaration.Typing environment.types) environment.context program.fields
    globals
  methods : Context.Steps (Method.Typing environment.types) globals program.methods complete
  main_found : complete.functions ⟨"main", 0⟩ = some main
  main_returns : Ty.integer.Assignable main.returns

/-- The program with its slots filled as the derivation says. -/
def Program.Typing.annotate {environment : Environment} {program : Program}
    (typing : program.Typing environment) : Program where
  fields := typing.fields.annotate Declaration.Typing.annotate
  methods := typing.methods.annotate Method.Typing.annotate

/-! ## There is one derivation -/

theorem Literal.HasType.unique {value : Literal} {type other : Ty} (typed : value.HasType type)
    (typed' : value.HasType other) : type = other := by
  cases typed <;> cases typed' <;> rfl

theorem Operator.Yields.unique {operator : Operator} {left right type other : Ty}
    (yields : operator.Yields left right type) (yields' : operator.Yields left right other) :
    type = other := by
  cases yields <;> cases yields' <;> grind [Operator.precedence]

theorem Ty.HasField.unique {owner type other : Ty} {name : String}
    (has : owner.HasField name type) (has' : owner.HasField name other) : type = other := by
  cases has with
  | nominal found =>
    cases has' with
    | nominal found' => exact Option.some.inj (found.symm.trans found')

theorem Ty.HasMethod.unique {owner : Ty} {key : FunctionKey} {signature other : Signature}
    (has : owner.HasMethod key signature) (has' : owner.HasMethod key other) :
    signature = other := by
  cases has with
  | nominal found =>
    cases has' with
    | nominal found' => rw [Option.some.inj (found.symm.trans found')]

theorem Block.Means.unique {name : String} {blocks : List Block} {found other : Variable}
    (means : Means name blocks found) (means' : Means name blocks other) : found = other := by
  induction means with
  | here bound =>
    cases means' with
    | here bound' => exact Option.some.inj (bound.symm.trans bound')
    | outside free => cases free.symm.trans bound
  | outside free _ ih =>
    cases means' with
    | here bound => cases free.symm.trans bound
    | outside _ means' => exact ih means'

namespace Expression

variable {context : Context}

mutual

/-- Two derivations for one expression have the same type and are the same. -/
theorem Typing.unique : (e : Expression) →
    ∀ typing other : (type : Ty) × Typing context e type, typing = other
  | .literal note value, ⟨_, .literal typed⟩, ⟨_, .literal typed'⟩ => by
    cases typed.unique typed'
    rfl
  | .group note e, ⟨_, .group inner⟩, ⟨_, .group inner'⟩ => by
    cases Typing.unique e ⟨_, inner⟩ ⟨_, inner'⟩
    rfl
  | .binary note operator left right, ⟨_, .binary onLeft onRight yields⟩,
      ⟨_, .binary onLeft' onRight' yields'⟩ => by
    cases Typing.unique left ⟨_, onLeft⟩ ⟨_, onLeft'⟩
    cases Typing.unique right ⟨_, onRight⟩ ⟨_, onRight'⟩
    cases yields.unique yields'
    rfl
  | .access note name slot, ⟨_, .access found means⟩, ⟨_, .access found' means'⟩ => by
    cases means.unique means'
    rfl
  | .memberAccess note receiver name slot, ⟨_, .memberAccess onReceiver has⟩,
      ⟨_, .memberAccess onReceiver' has'⟩ => by
    cases Typing.unique receiver ⟨_, onReceiver⟩ ⟨_, onReceiver'⟩
    cases has.unique has'
    rfl
  | .call note name args slot, ⟨_, .call signature found onArgs⟩,
      ⟨_, .call signature' found' onArgs'⟩ => by
    cases Option.some.inj (found.symm.trans found')
    cases ArgumentTyping.unique args _ onArgs onArgs'
    rfl
  | .memberCall note receiver name args slot, ⟨_, .memberCall signature onReceiver has onArgs⟩,
      ⟨_, .memberCall signature' onReceiver' has' onArgs'⟩ => by
    cases Typing.unique receiver ⟨_, onReceiver⟩ ⟨_, onReceiver'⟩
    cases has.unique has'
    cases ArgumentTyping.unique args _ onArgs onArgs'
    rfl

theorem ArgumentTyping.unique : (es : List Expression) → (types : List Ty) →
    ∀ typing other : ArgumentTyping context es types, typing = other
  | [], [], .nil, .nil => rfl
  | e :: es, _ :: types, .cons first _ others, .cons first' _ others' => by
    cases Typing.unique e ⟨_, first⟩ ⟨_, first'⟩
    cases ArgumentTyping.unique es types others others'
    rfl

end

end Expression

theorem Declaration.TypeTyping.unique {types : Registry} {context : Context} :
    (typeName : Option String) → (value : Option Expression) →
      ∀ typing other : (type : Ty) × TypeTyping types context typeName value type, typing = other
  | some _, none, ⟨_, .named found⟩, ⟨_, .named found'⟩ => by
    cases Option.some.inj (found.symm.trans found')
    rfl
  | none, some value, ⟨_, .valued onValue⟩, ⟨_, .valued onValue'⟩ => by
    cases Expression.Typing.unique value ⟨_, onValue⟩ ⟨_, onValue'⟩
    rfl
  | some _, some value, ⟨_, .both found onValue fits⟩, ⟨_, .both found' onValue' fits'⟩ => by
    cases Option.some.inj (found.symm.trans found')
    cases Expression.Typing.unique value ⟨_, onValue⟩ ⟨_, onValue'⟩
    rfl

theorem Declaration.Typing.unique {types : Registry} {context : Context} {decl : Declaration} :
    ∀ typing other : (after : Context) × decl.Typing types context after, typing = other
  | ⟨_, .declare type onType _⟩, ⟨_, .declare type' onType' _⟩ => by
    cases TypeTyping.unique decl.typeName decl.value ⟨_, onType⟩ ⟨_, onType'⟩
    rfl

namespace Statement

variable {types : Registry} {returns : Ty}

mutual

theorem Typing.unique : (s : Statement) → (context : Context) →
    ∀ typing other : (after : Context) × Typing types returns context s after, typing = other
  | .expression value, _, ⟨_, .expression _ onValue⟩, ⟨_, .expression _ onValue'⟩ => by
    cases Expression.Typing.unique value ⟨_, onValue⟩ ⟨_, onValue'⟩
    rfl
  | .declaration decl, _, ⟨_, .declaration onDecl⟩, ⟨_, .declaration onDecl'⟩ => by
    cases Declaration.Typing.unique ⟨_, onDecl⟩ ⟨_, onDecl'⟩
    rfl
  | .assignment target value, _, ⟨_, .assignment _ onTarget onValue _⟩,
      ⟨_, .assignment _ onTarget' onValue' _⟩ => by
    cases Expression.Typing.unique target ⟨_, onTarget⟩ ⟨_, onTarget'⟩
    cases Expression.Typing.unique value ⟨_, onValue⟩ ⟨_, onValue'⟩
    rfl
  | .conditional condition thenBody elseBody, _, ⟨_, .conditional onCondition _ _ onThen onElse⟩,
      ⟨_, .conditional onCondition' _ _ onThen' onElse'⟩ => by
    cases Expression.Typing.unique condition ⟨_, onCondition⟩ ⟨_, onCondition'⟩
    cases BlockTyping.unique thenBody _ onThen onThen'
    cases BlockTyping.unique elseBody _ onElse onElse'
    rfl
  | .forEach name range body, _, ⟨_, .forEach onRange _ _ onBody⟩,
      ⟨_, .forEach onRange' _ _ onBody'⟩ => by
    cases Expression.Typing.unique range ⟨_, onRange⟩ ⟨_, onRange'⟩
    cases BlockTyping.unique body _ onBody onBody'
    rfl
  | .loop condition body, _, ⟨_, .loop onCondition _ onBody⟩,
      ⟨_, .loop onCondition' _ onBody'⟩ => by
    cases Expression.Typing.unique condition ⟨_, onCondition⟩ ⟨_, onCondition'⟩
    cases BlockTyping.unique body _ onBody onBody'
    rfl
  | .result value, _, ⟨_, .result onValue _⟩, ⟨_, .result onValue' _⟩ => by
    cases Expression.Typing.unique value ⟨_, onValue⟩ ⟨_, onValue'⟩
    rfl

theorem BlockTyping.unique : (ss : List Statement) → (context : Context) →
    ∀ typing other : BlockTyping types returns context ss, typing = other
  | [], _, .nil, .nil => rfl
  | s :: ss, context, .cons first others, .cons first' others' => by
    cases Typing.unique s context ⟨_, first⟩ ⟨_, first'⟩
    cases BlockTyping.unique ss _ others others'
    rfl

end

end Statement

theorem Method.HasSignature.unique {types : Registry} {method : Method}
    {signature other : Signature} (has : method.HasSignature types signature)
    (has' : method.HasSignature types other) : signature = other := by
  have parameters : signature.parameters = other.parameters := by
    refine List.right_unique_forall₂' (fun parameter type type' found found' => ?_)
      has.parameters has'.parameters
    exact Option.some.inj (found.symm.trans found')
  have returns : signature.returns = other.returns := by
    have first := has.returns
    have second := has'.returns
    cases named : method.returnTypeName with
    | none =>
      rw [named] at first second
      exact first.trans second.symm
    | some name =>
      rw [named] at first second
      exact Option.some.inj (first.symm.trans second)
  obtain ⟨_, _, _, _⟩ := signature
  obtain ⟨_, _, _, _⟩ := other
  cases has.name.trans has'.name.symm
  cases has.javaName.trans has'.javaName.symm
  cases parameters
  cases returns
  rfl

theorem Method.Typing.unique {types : Registry} {context : Context} {method : Method} :
    ∀ typing other : (after : Context) × method.Typing types context after, typing = other
  | ⟨_, .define signature has _ _ body⟩, ⟨_, .define signature' has' _ _ body'⟩ => by
    cases has.unique has'
    cases Statement.BlockTyping.unique method.body _ body body'
    rfl

theorem Context.Steps.unique {α : Type} {step : Context → α → Context → Type}
    (unique : ∀ context item, ∀ typing other : (after : Context) × step context item after,
      typing = other) :
    (items : List α) → (context : Context) →
      ∀ typing other : (after : Context) × Steps step context items after, typing = other
  | [], _, ⟨_, .nil⟩, ⟨_, .nil⟩ => rfl
  | item :: items, context, ⟨_, .cons first others⟩, ⟨_, .cons first' others'⟩ => by
    cases unique context item ⟨_, first⟩ ⟨_, first'⟩
    cases Steps.unique unique items _ ⟨_, others⟩ ⟨_, others'⟩
    rfl

/-- A program is typed in one way, if at all. -/
theorem Program.Typing.unique {environment : Environment} {program : Program}
    (typing other : program.Typing environment) : typing = other := by
  obtain ⟨globals, complete, main, fields, methods, found, returns⟩ := typing
  obtain ⟨globals', complete', main', fields', methods', found', returns'⟩ := other
  cases Context.Steps.unique (fun _ _ => Declaration.Typing.unique) _ _ ⟨_, fields⟩ ⟨_, fields'⟩
  cases Context.Steps.unique (fun _ _ => Method.Typing.unique) _ _ ⟨_, methods⟩ ⟨_, methods'⟩
  cases Option.some.inj (found.symm.trans found')
  rfl

end Primer
