import Primer.Proofs.Environment.Built
import Primer.Proofs.Typing.Decision

/-!
# Typing in a larger environment

A derivation stays one when there are more types and more functions, and it says the same about
every slot.  Only the definition of a method can clash with a function that was added; everything
else looks up names that the smaller environment has (`Environment.Extends.exists_typing`).
-/

namespace Primer

/-! ## Larger contexts -/

/-- The context with further functions.  They hide none of its own. -/
def Context.widen (context : Context) (added : FunctionKey → Option Signature) : Context :=
  { context with functions := fun key => (context.functions key).or (added key) }

namespace Context

variable (context : Context) (added : FunctionKey → Option Signature)

theorem widen_functions {key : FunctionKey} {signature : Signature}
    (found : context.functions key = some signature) :
    (context.widen added).functions key = some signature := by
  show (context.functions key).or (added key) = some signature
  rw [found, Option.some_or]

theorem widen_inner : context.inner.widen added = (context.widen added).inner :=
  rfl

theorem widen_declare (name : String) (type : Ty) :
    (context.declare name type).widen added = (context.widen added).declare name type :=
  rfl

theorem widen_define (signature : Signature) :
    (context.define signature).widen added = (context.widen added).define signature := by
  have functions : (fun key => (Function.update context.functions signature.key (some signature)
      key).or (added key)) = Function.update (fun key => (context.functions key).or (added key))
        signature.key (some signature) := by
    funext key
    by_cases same : key = signature.key
    · rw [same, Function.update_self, Function.update_self, Option.some_or]
    · rw [Function.update_of_ne same, Function.update_of_ne same]
  exact congrArg (Context.mk · context.current context.outer) functions

theorem widen_declareAll (parameters : List (Parameter × Ty)) :
    (context.declareAll parameters).widen added = (context.widen added).declareAll parameters := by
  induction parameters generalizing context with
  | nil => rfl
  | cons parameter parameters ih => exact ih (context.declare parameter.1.name parameter.2)

end Context

variable {added : FunctionKey → Option Signature}

/-! ## Expressions -/

namespace Expression

variable {context : Context}

mutual

theorem Typing.exists_widen : (e : Expression) → (type : Ty) → (typing : Typing context e type) →
    ∃ wider : Typing (context.widen added) e type, wider.annotate = typing.annotate
  | .literal _ _, _, .literal typed => ⟨.literal typed, rfl⟩
  | .group _ e, _, .group onInner => by
    obtain ⟨inner, same⟩ := Typing.exists_widen e _ onInner
    exact ⟨.group inner, by simp only [Typing.annotate, same]⟩
  | .binary _ _ left right, _, .binary onLeft onRight yields => by
    obtain ⟨wideLeft, sameLeft⟩ := Typing.exists_widen left _ onLeft
    obtain ⟨wideRight, sameRight⟩ := Typing.exists_widen right _ onRight
    exact ⟨.binary wideLeft wideRight yields, by simp only [Typing.annotate, sameLeft, sameRight]⟩
  | .access _ _ _, _, .access found means => ⟨.access found means, rfl⟩
  | .memberAccess _ receiver _ _, _, .memberAccess onReceiver has => by
    obtain ⟨wide, same⟩ := Typing.exists_widen receiver _ onReceiver
    exact ⟨.memberAccess wide has, by simp only [Typing.annotate, same]⟩
  | .call _ _ args _, _, .call signature found onArgs => by
    obtain ⟨wide, same⟩ := ArgumentTyping.exists_widen args _ onArgs
    exact ⟨.call signature (context.widen_functions added found) wide,
      by simp only [Typing.annotate, same]⟩
  | .memberCall _ receiver _ args _, _, .memberCall signature onReceiver has onArgs => by
    obtain ⟨wide, same⟩ := Typing.exists_widen receiver _ onReceiver
    obtain ⟨wideArgs, sameArgs⟩ := ArgumentTyping.exists_widen args _ onArgs
    exact ⟨.memberCall signature wide has wideArgs, by simp only [Typing.annotate, same, sameArgs]⟩

theorem ArgumentTyping.exists_widen : (es : List Expression) → (types : List Ty) →
    (typing : ArgumentTyping context es types) →
    ∃ wider : ArgumentTyping (context.widen added) es types, wider.annotate = typing.annotate
  | [], [], .nil => ⟨.nil, rfl⟩
  | e :: es, _ :: types, .cons first fits others => by
    obtain ⟨wide, same⟩ := Typing.exists_widen e _ first
    obtain ⟨wideOthers, sameOthers⟩ := ArgumentTyping.exists_widen es types others
    exact ⟨.cons wide fits wideOthers, by simp only [ArgumentTyping.annotate, same, sameOthers]⟩

end

end Expression

/-! ## Statements -/

/-- What the first registry has, the second one has under the same name. -/
def Registry.Within (types larger : Registry) : Prop :=
  ∀ name type, types.find? name = some type → larger.find? name = some type

variable {types larger : Registry}

theorem Declaration.TypeTyping.exists_widen (within : types.Within larger) {context : Context}
    {typeName : Option String} {value : Option Expression} {type : Ty}
    (typing : TypeTyping types context typeName value type) :
    ∃ wider : TypeTyping larger (context.widen added) typeName value type,
      wider.annotate = typing.annotate := by
  cases typing with
  | named found => exact ⟨.named (within _ _ found), rfl⟩
  | @valued value _ onValue =>
    obtain ⟨wide, same⟩ := onValue.exists_widen value type
    exact ⟨.valued wide, congrArg some same⟩
  | @both name value _ initial found onValue fits =>
    obtain ⟨wide, same⟩ := onValue.exists_widen value initial
    exact ⟨.both (within _ _ found) wide fits, congrArg some same⟩

theorem Declaration.Typing.exists_widen (within : types.Within larger) {context after : Context}
    {decl : Declaration} (typing : decl.Typing types context after) :
    ∃ wider : decl.Typing larger (context.widen added) (after.widen added),
      wider.annotate = typing.annotate := by
  cases typing with
  | declare type onType free =>
    obtain ⟨wide, same⟩ := onType.exists_widen within
    exact ⟨.declare type wide free, by simp only [Declaration.Typing.annotate, same]⟩

namespace Statement

variable {returns : Ty}

mutual

theorem Typing.exists_widen (within : types.Within larger) : (s : Statement) →
    (context after : Context) → (typing : Typing types returns context s after) →
    ∃ wider : Typing larger returns (context.widen added) s (after.widen added),
      wider.annotate = typing.annotate
  | .expression value, _, _, .expression isCall onValue => by
    obtain ⟨wide, same⟩ := onValue.exists_widen value _
    exact ⟨.expression isCall wide, by simp only [Typing.annotate, same]⟩
  | .declaration _, _, _, .declaration onDecl => by
    obtain ⟨wide, same⟩ := onDecl.exists_widen within
    exact ⟨.declaration wide, by simp only [Typing.annotate, same]⟩
  | .assignment target value, _, _, .assignment isAccess onTarget onValue fits => by
    obtain ⟨wideTarget, sameTarget⟩ := onTarget.exists_widen target _
    obtain ⟨wideValue, sameValue⟩ := onValue.exists_widen value _
    exact ⟨.assignment isAccess wideTarget wideValue fits,
      by simp only [Typing.annotate, sameTarget, sameValue]⟩
  | .conditional condition thenBody elseBody, context, _,
      .conditional onCondition fits nonempty onThen onElse => by
    obtain ⟨wide, same⟩ := onCondition.exists_widen condition _
    -- Widening commutes with `inner` by definition only, so the type has to be rewritten first.
    have onThen' := BlockTyping.exists_widen within thenBody context.inner onThen
    have onElse' := BlockTyping.exists_widen within elseBody context.inner onElse
    rw [Context.widen_inner] at onThen' onElse'
    obtain ⟨wideThen, sameThen⟩ := onThen'
    obtain ⟨wideElse, sameElse⟩ := onElse'
    exact ⟨.conditional wide fits nonempty wideThen wideElse,
      by simp only [Typing.annotate, same, sameThen, sameElse]⟩
  | .forEach name range body, context, _, .forEach onRange fits nonempty onBody => by
    obtain ⟨wide, same⟩ := onRange.exists_widen range _
    have onBody' :=
      BlockTyping.exists_widen within body (context.inner.declare name .integer) onBody
    rw [Context.widen_declare, Context.widen_inner] at onBody'
    obtain ⟨wideBody, sameBody⟩ := onBody'
    exact ⟨.forEach wide fits nonempty wideBody, by simp only [Typing.annotate, same, sameBody]⟩
  | .loop condition body, context, _, .loop onCondition fits onBody => by
    obtain ⟨wide, same⟩ := onCondition.exists_widen condition _
    have onBody' := BlockTyping.exists_widen within body context.inner onBody
    rw [Context.widen_inner] at onBody'
    obtain ⟨wideBody, sameBody⟩ := onBody'
    exact ⟨.loop wide fits wideBody, by simp only [Typing.annotate, same, sameBody]⟩
  | .result value, _, _, .result onValue fits => by
    obtain ⟨wide, same⟩ := onValue.exists_widen value _
    exact ⟨.result wide fits, by simp only [Typing.annotate, same]⟩

theorem BlockTyping.exists_widen (within : types.Within larger) : (ss : List Statement) →
    (context : Context) → (typing : BlockTyping types returns context ss) →
    ∃ wider : BlockTyping larger returns (context.widen added) ss,
      wider.annotate = typing.annotate
  | [], _, .nil => ⟨.nil, rfl⟩
  | s :: ss, context, .cons first others => by
    obtain ⟨wide, same⟩ := Typing.exists_widen within s context _ first
    obtain ⟨wideOthers, sameOthers⟩ := BlockTyping.exists_widen within ss _ others
    exact ⟨.cons wide wideOthers, by simp only [BlockTyping.annotate, same, sameOthers]⟩

end

end Statement

/-! ## Methods and programs -/

theorem Method.HasSignature.widen (within : types.Within larger) {method : Method}
    {signature : Signature} (has : method.HasSignature types signature) :
    method.HasSignature larger signature where
  name := has.name
  javaName := has.javaName
  parameters := has.parameters.imp fun _ _ found => within _ _ found
  returns := by
    have returns := has.returns
    cases named : method.returnTypeName with
    | none => rwa [named] at returns
    | some name =>
      rw [named] at returns
      exact within _ _ returns

/-- A method whose key was not added. -/
theorem Method.Typing.exists_widen (within : types.Within larger) {context after : Context}
    {method : Method} (apart : added method.key = none)
    (typing : method.Typing types context after) :
    ∃ wider : method.Typing larger (context.widen added) (after.widen added),
      wider.annotate = typing.annotate := by
  cases typing with
  | define signature has free distinct onBody =>
    have onBody' : ∃ wider : Statement.BlockTyping larger signature.returns (.widen _ added)
        method.body, wider.annotate = onBody.annotate :=
      onBody.exists_widen within method.body _
    rw [Context.widen_declareAll, Context.widen_inner, Context.widen_define] at onBody'
    obtain ⟨wide, same⟩ := onBody'
    have stillFree : (context.widen added).functions method.key = none := by
      show (context.functions method.key).or (added method.key) = none
      rw [free, apart, Option.none_or]
    rw [Context.widen_define]
    exact ⟨.define signature (has.widen within) stillFree distinct wide,
      by simp only [Method.Typing.annotate, same]⟩

/-- Where each step can be widened, so can they all. -/
theorem Context.Steps.exists_widen {α : Type} {step step' : Context → α → Context → Type}
    {annotate : ∀ {context item after}, step context item after → α}
    {annotate' : ∀ {context item after}, step' context item after → α} :
    (items : List α) → (context after : Context) → (steps : Steps step context items after) →
    (∀ item ∈ items, ∀ context after, ∀ typing : step context item after,
      ∃ wider : step' (context.widen added) item (after.widen added),
        annotate' wider = annotate typing) →
    ∃ wider : Steps step' (context.widen added) items (after.widen added),
      wider.annotate annotate' = steps.annotate annotate
  | [], _, _, .nil, _ => ⟨.nil, rfl⟩
  | item :: items, _, after, .cons first others, widens => by
    rcases List.forall_mem_cons.mp widens with ⟨here, behind⟩
    obtain ⟨wide, same⟩ := here _ _ first
    obtain ⟨wideOthers, sameOthers⟩ := Steps.exists_widen items _ after others behind
    exact ⟨.cons wide wideOthers, by simp only [Steps.annotate, same, sameOthers]⟩

/-- The signatures of the functions that are added, by key. -/
def NativeFunction.signature? (functions : List NativeFunction) (key : FunctionKey) :
    Option Signature :=
  (functions.find? (·.signature.key == key)).map (·.signature)

namespace Environment.Extends

variable {environment extended : Environment} {natives : List NativeFunction}
  (further : environment.Extends extended natives)

include further

theorem context_eq :
    extended.context = environment.context.widen (NativeFunction.signature? natives) := by
  have functions : extended.context.functions =
      (environment.context.widen (NativeFunction.signature? natives)).functions := by
    funext key
    show (extended.functions.find? _).map _ = ((environment.functions.find? _).map _).or
      ((natives.find? _).map _)
    rw [further.functions_eq, List.find?_append]
    cases environment.functions.find? (·.signature.key == key) <;> rfl
  exact congrArg (Context.mk · (fun _ => none) []) functions

/-- A program that is typed in an environment is typed in each larger one, and its slots are filled
with the same, unless one of its methods has the key of a function that was added. -/
theorem exists_typing {program : Program} (typing : program.Typing environment)
    (apart : ∀ method ∈ program.methods, ∀ function ∈ natives,
      function.signature.key ≠ method.key) :
    ∃ wider : program.Typing extended, wider.annotate = typing.annotate := by
  have within : environment.types.Within extended.types := fun _ _ => further.find?_types
  have fresh : ∀ method ∈ program.methods,
      NativeFunction.signature? natives method.key = none := by
    intro method member
    rw [NativeFunction.signature?, Option.map_eq_none_iff, List.find?_eq_none]
    intro function found same
    exact apart method member function found (beq_iff_eq.mp same)
  have fields : ∃ wider : Context.Steps (Declaration.Typing extended.types)
      (environment.context.widen (NativeFunction.signature? natives)) program.fields
      (typing.globals.widen (NativeFunction.signature? natives)),
      wider.annotate Declaration.Typing.annotate =
        typing.fields.annotate Declaration.Typing.annotate :=
    Context.Steps.exists_widen _ _ _ typing.fields fun _ _ _ _ typing => typing.exists_widen within
  have methods : ∃ wider : Context.Steps (Method.Typing extended.types)
      (typing.globals.widen (NativeFunction.signature? natives)) program.methods
      (typing.complete.widen (NativeFunction.signature? natives)),
      wider.annotate Method.Typing.annotate = typing.methods.annotate Method.Typing.annotate :=
    Context.Steps.exists_widen _ _ _ typing.methods fun method member _ _ typing =>
      typing.exists_widen within (fresh method member)
  rw [← further.context_eq] at fields
  obtain ⟨wideFields, sameFields⟩ := fields
  obtain ⟨wideMethods, sameMethods⟩ := methods
  refine ⟨⟨_, _, typing.main, wideFields, wideMethods,
    typing.complete.widen_functions _ typing.main_found, typing.main_returns⟩, ?_⟩
  simp only [Program.Typing.annotate, sameFields, sameMethods]

end Environment.Extends

end Primer
