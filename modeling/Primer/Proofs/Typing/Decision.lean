import Primer.Environment.Counter
import Primer.Proofs.Grammar.Fresh
import Primer.Proofs.Pipeline.Computation
import Primer.Proofs.Typing.Meaning

/-!
# Checking decides typing

The check of a program succeeds exactly when the program has a typing derivation, and then the
check fills the slots as the derivation says (`Program.resolve_decides_typing`).

Each judgement is compared with the walk of its kind: a derivation shows how the walk of a tree with
empty slots goes (`resolve_eq`), and a walk that succeeds shows a derivation (`typing_of_resolve`).
-/

namespace Primer

/-! ## Expressions -/

namespace Expression

variable {scope : StaticScope}

mutual

/-- A derivation shows how the check of an unchecked expression goes. -/
theorem Typing.resolve_eq : (e : Expression) → (type : Ty) →
    (typing : Typing scope.context e type) → AllEmpty e.slots →
    e.resolve scope = ⟨typing.annotate, .ok type⟩
  | .literal _ _, _, .literal typed, empty => by
    have own := (allEmpty_cons.mp empty).1
    exact resolve_literal_eq_ok.mpr ⟨own, Literal.type_eq_ok.mpr typed, rfl⟩
  | .group _ e, _, .group onInner, empty => by
    rcases allEmpty_append.mp empty with ⟨inner, own⟩
    exact resolve_group_eq_ok.mpr
      ⟨(allEmpty_cons.mp own).1, _, Typing.resolve_eq e _ onInner inner, rfl⟩
  | .binary _ _ left right, _, .binary onLeft onRight yields, empty => by
    rcases allEmpty_append.mp empty with ⟨leftEmpty, empty⟩
    rcases allEmpty_append.mp empty with ⟨rightEmpty, own⟩
    exact resolve_binary_eq_ok.mpr ⟨(allEmpty_cons.mp own).1, _, _, _, _,
      Typing.resolve_eq left _ onLeft leftEmpty, Typing.resolve_eq right _ onRight rightEmpty,
      Operator.type_eq_ok.mpr yields, rfl⟩
  | .access _ _ _, _, .access found means, empty => by
    rcases allEmpty_cons.mp empty with ⟨binding, own⟩
    exact resolve_access_eq_ok.mpr ⟨(allEmpty_cons.mp own).1, binding, found,
      StaticScope.means_iff.mp means, rfl, rfl⟩
  | .memberAccess _ receiver _ _, _, .memberAccess onReceiver has, empty => by
    rcases allEmpty_append.mp empty with ⟨receiverEmpty, empty⟩
    rcases allEmpty_cons.mp empty with ⟨binding, own⟩
    exact resolve_memberAccess_eq_ok.mpr ⟨(allEmpty_cons.mp own).1, binding, _, _,
      Typing.resolve_eq receiver _ onReceiver receiverEmpty, Ty.field_eq_ok.mpr has, rfl⟩
  | .call _ _ args _, _, .call signature found onArgs, empty => by
    rcases allEmpty_append.mp empty with ⟨argsEmpty, empty⟩
    rcases allEmpty_cons.mp empty with ⟨binding, own⟩
    exact resolve_call_eq_ok.mpr ⟨(allEmpty_cons.mp own).1, binding, signature, _,
      StaticScope.getFunction_eq_ok.mpr found, ArgumentTyping.resolve_eq args _ onArgs argsEmpty,
      rfl, rfl⟩
  | .memberCall _ receiver _ args _, _, .memberCall signature onReceiver has onArgs, empty => by
    rcases allEmpty_append.mp empty with ⟨receiverEmpty, empty⟩
    rcases allEmpty_append.mp empty with ⟨argsEmpty, empty⟩
    rcases allEmpty_cons.mp empty with ⟨binding, own⟩
    have resolved := Typing.resolve_eq receiver _ onReceiver receiverEmpty
    have resolvedArgs := ArgumentTyping.resolve_eq args _ onArgs argsEmpty
    rcases has.exists_method with ⟨method, offered, rfl⟩
    exact resolve_memberCall_eq_ok.mpr ⟨(allEmpty_cons.mp own).1, binding, _, _, method, _,
      resolved, offered, resolvedArgs, rfl, rfl⟩

theorem ArgumentTyping.resolve_eq : (args : List Expression) → (parameters : List Ty) →
    (typing : ArgumentTyping scope.context args parameters) → AllEmpty (allSlots args) →
    resolveArguments scope args parameters = ⟨typing.annotate, .ok ()⟩
  | [], [], .nil, _ => resolveArguments_nil_eq_ok.mpr rfl
  | e :: es, _ :: parameters, .cons first fits others, empty => by
    rcases allEmpty_append.mp empty with ⟨firstEmpty, othersEmpty⟩
    exact resolveArguments_cons_eq_ok.mpr ⟨_, _, _, Typing.resolve_eq e _ first firstEmpty,
      Ty.mustAccept_eq_ok.mpr fits, ArgumentTyping.resolve_eq es parameters others othersEmpty,
      rfl⟩

end

mutual

/-- A check that succeeds shows a derivation.  A call is found by the number of its arguments, so
none of them goes without a parameter. -/
theorem typing_of_resolve (keyed : scope.context.Keyed) : (e : Expression) →
    ∀ tree type, e.resolve scope = ⟨tree, .ok type⟩ → Nonempty (Typing scope.context e type)
  | .literal _ _, _, _, resolved => by
    rcases resolve_literal_eq_ok.mp resolved with ⟨-, typed, -⟩
    exact ⟨.literal (Literal.type_eq_ok.mp typed)⟩
  | .group _ e, _, _, resolved => by
    rcases resolve_group_eq_ok.mp resolved with ⟨-, _, inner, -⟩
    rcases typing_of_resolve keyed e _ _ inner with ⟨onInner⟩
    exact ⟨.group onInner⟩
  | .binary _ _ left right, _, _, resolved => by
    rcases resolve_binary_eq_ok.mp resolved with
      ⟨-, _, _, _, _, resolvedLeft, resolvedRight, typed, -⟩
    rcases typing_of_resolve keyed left _ _ resolvedLeft with ⟨onLeft⟩
    rcases typing_of_resolve keyed right _ _ resolvedRight with ⟨onRight⟩
    exact ⟨.binary onLeft onRight (Operator.type_eq_ok.mp typed)⟩
  | .access _ _ _, _, _, resolved => by
    rcases resolve_access_eq_ok.mp resolved with ⟨-, -, found, bound, rfl, -⟩
    exact ⟨.access found (StaticScope.means_iff.mpr bound)⟩
  | .memberAccess _ receiver _ _, _, _, resolved => by
    rcases resolve_memberAccess_eq_ok.mp resolved with ⟨-, -, _, _, resolvedReceiver, has, -⟩
    rcases typing_of_resolve keyed receiver _ _ resolvedReceiver with ⟨onReceiver⟩
    exact ⟨.memberAccess onReceiver (Ty.field_eq_ok.mp has)⟩
  | .call _ _ args _, _, _, resolved => by
    rcases resolve_call_eq_ok.mp resolved with ⟨-, -, signature, _, bound, resolvedArgs, rfl, -⟩
    have found := StaticScope.getFunction_eq_ok.mp bound
    have arity := congrArg FunctionKey.arity (keyed _ _ found)
    rcases argumentTyping_of_resolve keyed args _ _ arity.symm resolvedArgs with ⟨onArgs⟩
    exact ⟨.call signature found onArgs⟩
  | .memberCall _ receiver _ args _, _, _, resolved => by
    rcases resolve_memberCall_eq_ok.mp resolved with
      ⟨-, -, _, _, method, _, resolvedReceiver, offered, resolvedArgs, rfl, -⟩
    have has := Ty.hasMethod_of_method offered
    have arity := congrArg FunctionKey.arity has.key_eq
    rcases typing_of_resolve keyed receiver _ _ resolvedReceiver with ⟨onReceiver⟩
    rcases argumentTyping_of_resolve keyed args _ _ arity.symm resolvedArgs with ⟨onArgs⟩
    exact ⟨.memberCall method.signature onReceiver has onArgs⟩

theorem argumentTyping_of_resolve (keyed : scope.context.Keyed) : (args : List Expression) →
    ∀ (parameters : List Ty) trees, args.length = parameters.length →
      resolveArguments scope args parameters = ⟨trees, .ok ()⟩ →
      Nonempty (ArgumentTyping scope.context args parameters)
  | [], [], _, _, _ => ⟨.nil⟩
  | e :: es, parameter :: parameters, _, arity, resolved => by
    rcases resolveArguments_cons_eq_ok.mp resolved with ⟨_, _, _, first, fits, others, -⟩
    rcases typing_of_resolve keyed e _ _ first with ⟨onFirst⟩
    rcases argumentTyping_of_resolve keyed es parameters _ (Nat.succ.inj arity) others with
      ⟨onOthers⟩
    exact ⟨.cons onFirst (Ty.mustAccept_eq_ok.mp fits) onOthers⟩

end

end Expression

/-! ## Declarations and statements -/

namespace Declaration

variable {types : Registry} {scope after : StaticScope} {decl tree : Declaration}

theorem typeName_eq_ok {typeName : Option String} {declared : Option Ty} :
    typeName.mapM types.get = .ok declared ↔
      typeName.elim (declared = none) fun name =>
        ∃ type, types.find? name = some type ∧ declared = some type := by
  cases typeName with
  | none => exact ⟨fun same => (Except.ok.inj same).symm, fun same => congrArg Except.ok same.symm⟩
  | some name =>
    simp only [Option.elim_some, ← Registry.get_eq_ok]
    constructor
    · intro mapped
      rcases exists_of_bind_eq_ok mapped with ⟨type, found, done⟩
      exact ⟨type, found, (Except.ok.inj done).symm⟩
    · rintro ⟨type, found, rfl⟩
      change types.get name >>= _ = _
      rw [found]
      rfl

theorem type_both_eq_ok {name : String} {declared initial type : Ty} :
    Declaration.type name (some declared) (some initial) = .ok type ↔
      declared.Assignable initial ∧ type = declared := by
  rw [← Ty.mustAccept_eq_ok]
  constructor
  · intro typed
    rcases exists_of_bind_eq_ok typed with ⟨_, fits, done⟩
    exact ⟨fits, (Except.ok.inj done).symm⟩
  · rintro ⟨fits, rfl⟩
    rw [Declaration.type, fits]
    rfl

/-- The value of a declaration, the types that it is declared with and that its value has, and the
type that follows from both. -/
theorem TypeTyping.resolve_eq {type : Ty}
    (typing : TypeTyping types scope.context decl.typeName decl.value type)
    (empty : AllEmpty (decl.value.elim [] Expression.slots)) :
    ∃ declared initial, decl.typeName.mapM types.get = .ok declared ∧
      decl.resolveValue scope = ⟨{ decl with value := typing.annotate }, .ok initial⟩ ∧
      Declaration.type decl.name declared initial = .ok type := by
  rcases decl with ⟨name, typeName, value, span, binding⟩
  cases typing with
  | named found =>
    exact ⟨_, none, typeName_eq_ok.mpr ⟨_, found, rfl⟩,
      resolveValue_eq_ok.mpr (.inl ⟨rfl, rfl, rfl⟩), rfl⟩
  | @valued value _ onValue =>
    have resolved := Expression.Typing.resolve_eq value _ onValue empty
    exact ⟨none, _, typeName_eq_ok.mpr rfl,
      resolveValue_eq_ok.mpr (.inr ⟨_, _, _, rfl, resolved, rfl, rfl⟩), rfl⟩
  | @both _ value _ _ found onValue fits =>
    have resolved := Expression.Typing.resolve_eq value _ onValue empty
    exact ⟨_, _, typeName_eq_ok.mpr ⟨_, found, rfl⟩,
      resolveValue_eq_ok.mpr (.inr ⟨_, _, _, rfl, resolved, rfl, rfl⟩),
      type_both_eq_ok.mpr ⟨fits, rfl⟩⟩

theorem Typing.resolve_eq {context : Context} (typing : decl.Typing types scope.context context)
    (empty : AllEmpty decl.slots) :
    ∃ after, decl.resolve types scope = ⟨typing.annotate, .ok after⟩ ∧ after.context = context ∧
      (scope.inner = [] → after.inner = []) := by
  rcases allEmpty_append.mp empty with ⟨valueEmpty, own⟩
  cases typing with
  | declare type onType free =>
    rcases onType.resolve_eq valueEmpty with ⟨declared, initial, named, valued, typed⟩
    rcases StaticScope.exists_addVariable free type with ⟨after, added⟩
    rcases StaticScope.context_of_addVariable added with ⟨-, context_eq, atRoot⟩
    refine ⟨after, ?_, context_eq, atRoot⟩
    exact resolve_eq_ok.mpr ⟨(allEmpty_cons.mp own).1, declared, _, initial, type, named, valued,
      typed, added, rfl⟩

theorem typeTyping_of_resolve (keyed : scope.context.Keyed) {declared initial : Option Ty}
    {value : Option Expression} {type : Ty} (named : decl.typeName.mapM types.get = .ok declared)
    (valued : decl.resolveValue scope = ⟨{ decl with value }, .ok initial⟩)
    (typed : Declaration.type decl.name declared initial = .ok type) :
    Nonempty (TypeTyping types scope.context decl.typeName decl.value type) := by
  have names := typeName_eq_ok.mp named
  rcases resolveValue_eq_ok.mp valued with
    ⟨missing, -, rfl⟩ | ⟨value, value', found, present, resolved, -, rfl⟩
  · rw [missing]
    cases typeName : decl.typeName with
    | none =>
      rw [typeName] at names
      cases names
      cases typed
    | some name =>
      rw [typeName] at names
      rcases names with ⟨declared, registered, rfl⟩
      cases typed
      exact ⟨.named registered⟩
  · rw [present]
    rcases Expression.typing_of_resolve keyed value _ _ resolved with ⟨onValue⟩
    cases typeName : decl.typeName with
    | none =>
      rw [typeName] at names
      cases names
      cases typed
      exact ⟨.valued onValue⟩
    | some name =>
      rw [typeName] at names
      rcases names with ⟨declared, registered, rfl⟩
      rcases type_both_eq_ok.mp typed with ⟨fits, rfl⟩
      exact ⟨.both registered onValue fits⟩

theorem typing_of_resolve (keyed : scope.context.Keyed)
    (resolved : decl.resolve types scope = ⟨tree, .ok after⟩) :
    Nonempty (decl.Typing types scope.context after.context) ∧
      (scope.inner = [] → after.inner = []) := by
  rcases resolve_eq_ok.mp resolved with
    ⟨-, declared, value, initial, type, named, valued, typed, added, -⟩
  rcases StaticScope.context_of_addVariable added with ⟨free, context_eq, atRoot⟩
  rcases typeTyping_of_resolve keyed named valued typed with ⟨onType⟩
  rw [context_eq]
  exact ⟨⟨.declare type onType free⟩, atRoot⟩

/-- The same for a field, with what the next one needs. -/
theorem typing_of_field (keyed : scope.context.Keyed) (atRoot : scope.inner = [])
    (resolved : decl.resolve types scope = ⟨tree, .ok after⟩) :
    Nonempty (decl.Typing types scope.context after.context) ∧ after.context.Keyed ∧
      after.inner = [] := by
  rcases typing_of_resolve keyed resolved with ⟨⟨typing⟩, stillAtRoot⟩
  refine ⟨⟨typing⟩, ?_, stillAtRoot atRoot⟩
  generalize after.context = context at typing
  cases typing
  exact keyed

end Declaration

namespace Statement

variable {types : Registry} {returns : Ty}

mutual

theorem Typing.resolve_eq : (s : Statement) → (scope : StaticScope) → (context : Context) →
    (typing : Typing types returns scope.context s context) → AllEmpty s.slots →
    ∃ after, s.resolve types returns scope = ⟨typing.annotate, .ok after⟩ ∧ after.context = context
  | .expression value, scope, _, .expression isCall onValue, empty => by
    have resolved := onValue.resolve_eq value _ empty
    exact ⟨scope, resolve_expression_eq_ok.mpr ⟨isCall, rfl, _, _, resolved, rfl⟩, rfl⟩
  | .declaration decl, _, _, .declaration onDecl, empty => by
    rcases onDecl.resolve_eq empty with ⟨after, resolved, context_eq, -⟩
    exact ⟨after, resolve_declaration_eq_ok.mpr ⟨_, resolved, rfl⟩, context_eq⟩
  | .assignment target value, scope, _, .assignment isAccess onTarget onValue fits, empty => by
    rcases allEmpty_append.mp empty with ⟨targetEmpty, valueEmpty⟩
    exact ⟨scope, resolve_assignment_eq_ok.mpr ⟨isAccess, rfl, _, _, _, _,
      onTarget.resolve_eq target _ targetEmpty, onValue.resolve_eq value _ valueEmpty,
      Ty.mustAccept_eq_ok.mpr fits, rfl⟩, rfl⟩
  | .conditional condition thenBody elseBody, scope, _,
      .conditional onCondition fits nonempty onThen onElse, empty => by
    rcases allEmpty_append.mp empty with ⟨conditionEmpty, empty⟩
    rcases allEmpty_append.mp empty with ⟨thenEmpty, elseEmpty⟩
    rcases BlockTyping.resolve_eq thenBody scope.push _ onThen scope.context_push thenEmpty with
      ⟨thenScope, resolvedThen⟩
    rcases BlockTyping.resolve_eq elseBody scope.push _ onElse scope.context_push elseEmpty with
      ⟨elseScope, resolvedElse⟩
    exact ⟨scope, resolve_conditional_eq_ok.mpr ⟨List.isEmpty_eq_false_iff.mpr nonempty, rfl, _, _,
      _, thenScope, _, elseScope, onCondition.resolve_eq condition _ conditionEmpty,
      Ty.mustAccept_eq_ok.mpr fits, resolvedThen, resolvedElse, rfl⟩, rfl⟩
  | .forEach name range body, scope, _, .forEach onRange fits nonempty onBody, empty => by
    rcases allEmpty_append.mp empty with ⟨rangeEmpty, bodyEmpty⟩
    have free : (StaticScope.context scope.push).current name = none := by
      rw [scope.context_push]
      rfl
    rcases StaticScope.exists_addVariable free .integer with ⟨inside, added⟩
    have context_eq : StaticScope.context inside = scope.context.inner.declare name .integer := by
      rw [(StaticScope.context_of_addVariable added).2.1, scope.context_push]
    rcases BlockTyping.resolve_eq body inside _ onBody context_eq bodyEmpty with
      ⟨bodyScope, resolvedBody⟩
    exact ⟨scope, resolve_forEach_eq_ok.mpr ⟨List.isEmpty_eq_false_iff.mpr nonempty, rfl, _, _,
      inside, _, bodyScope, onRange.resolve_eq range _ rangeEmpty, Ty.mustAccept_eq_ok.mpr fits,
      added, resolvedBody, rfl⟩, rfl⟩
  | .loop condition body, scope, _, .loop onCondition fits onBody, empty => by
    rcases allEmpty_append.mp empty with ⟨conditionEmpty, bodyEmpty⟩
    rcases BlockTyping.resolve_eq body scope.push _ onBody scope.context_push bodyEmpty with
      ⟨bodyScope, resolvedBody⟩
    exact ⟨scope, resolve_loop_eq_ok.mpr ⟨rfl, _, _, _, bodyScope,
      onCondition.resolve_eq condition _ conditionEmpty, Ty.mustAccept_eq_ok.mpr fits,
      resolvedBody, rfl⟩, rfl⟩
  | .result value, scope, _, .result onValue fits, empty => by
    have resolved := onValue.resolve_eq value _ empty
    exact ⟨scope, resolve_result_eq_ok.mpr ⟨rfl, _, _, resolved, Ty.mustAccept_eq_ok.mpr fits,
      rfl⟩, rfl⟩

theorem BlockTyping.resolve_eq : (ss : List Statement) → (scope : StaticScope) →
    (context : Context) → (typing : BlockTyping types returns context ss) →
    scope.context = context → AllEmpty (allSlots ss) →
    ∃ after, resolveAll types returns ss scope = ⟨typing.annotate, .ok after⟩
  | [], scope, _, .nil, _, _ => ⟨scope, resolveAll_nil_eq_ok.mpr ⟨rfl, rfl⟩⟩
  | s :: ss, scope, _, .cons first others, rfl, empty => by
    rcases allEmpty_append.mp empty with ⟨firstEmpty, othersEmpty⟩
    rcases Typing.resolve_eq s scope _ first firstEmpty with ⟨middle, resolved, context_eq⟩
    rcases BlockTyping.resolve_eq ss middle _ others context_eq othersEmpty with
      ⟨after, resolvedOthers⟩
    exact ⟨after, resolveAll_cons_eq_ok.mpr ⟨_, middle, _, resolved, resolvedOthers, rfl⟩⟩

end

/-- Statements define no functions. -/
theorem Typing.functions_eq {s : Statement} {context after : Context}
    (typing : Typing types returns context s after) : after.functions = context.functions := by
  cases typing with
  | declaration onDecl => cases onDecl; rfl
  | _ => rfl

mutual

theorem typing_of_resolve : (s : Statement) → (scope : StaticScope) → scope.context.Keyed →
    ∀ tree after, s.resolve types returns scope = ⟨tree, .ok after⟩ →
      Nonempty (Typing types returns scope.context s after.context)
  | .expression value, scope, keyed, _, _, resolved => by
    rcases resolve_expression_eq_ok.mp resolved with ⟨isCall, same, _, _, resolvedValue, -⟩
    rw [same]
    rcases value.typing_of_resolve keyed _ _ resolvedValue with ⟨onValue⟩
    exact ⟨.expression isCall onValue⟩
  | .declaration decl, scope, keyed, _, _, resolved => by
    rcases resolve_declaration_eq_ok.mp resolved with ⟨_, resolvedDecl, -⟩
    rcases Declaration.typing_of_resolve keyed resolvedDecl with ⟨⟨onDecl⟩, -⟩
    exact ⟨.declaration onDecl⟩
  | .assignment target value, scope, keyed, _, _, resolved => by
    rcases resolve_assignment_eq_ok.mp resolved with
      ⟨isAccess, same, _, _, _, _, resolvedTarget, resolvedValue, fits, -⟩
    rw [same]
    rcases target.typing_of_resolve keyed _ _ resolvedTarget with ⟨onTarget⟩
    rcases value.typing_of_resolve keyed _ _ resolvedValue with ⟨onValue⟩
    exact ⟨.assignment isAccess onTarget onValue (Ty.mustAccept_eq_ok.mp fits)⟩
  | .conditional condition thenBody elseBody, scope, keyed, _, _, resolved => by
    rcases resolve_conditional_eq_ok.mp resolved with
      ⟨nonempty, same, _, _, _, _, _, _, resolvedCondition, fits, resolvedThen, resolvedElse, -⟩
    rw [same]
    rcases condition.typing_of_resolve keyed _ _ resolvedCondition with ⟨onCondition⟩
    have inside : (StaticScope.context scope.push).Keyed := by rwa [scope.context_push]
    have onThen := blockTyping_of_resolve thenBody scope.push inside _ _ resolvedThen
    have onElse := blockTyping_of_resolve elseBody scope.push inside _ _ resolvedElse
    rw [scope.context_push] at onThen onElse
    rcases onThen with ⟨onThen⟩
    rcases onElse with ⟨onElse⟩
    exact ⟨.conditional onCondition (Ty.mustAccept_eq_ok.mp fits)
      (List.isEmpty_eq_false_iff.mp nonempty) onThen onElse⟩
  | .forEach name range body, scope, keyed, _, _, resolved => by
    rcases resolve_forEach_eq_ok.mp resolved with
      ⟨nonempty, same, _, _, inside, _, _, resolvedRange, fits, added, resolvedBody, -⟩
    rw [same]
    rcases range.typing_of_resolve keyed _ _ resolvedRange with ⟨onRange⟩
    have context_eq : StaticScope.context inside = scope.context.inner.declare name .integer := by
      rw [(StaticScope.context_of_addVariable added).2.1, scope.context_push]
    have onBody := blockTyping_of_resolve body inside (by rwa [context_eq]) _ _ resolvedBody
    rw [context_eq] at onBody
    rcases onBody with ⟨onBody⟩
    exact ⟨.forEach onRange (Ty.mustAccept_eq_ok.mp fits) (List.isEmpty_eq_false_iff.mp nonempty)
      onBody⟩
  | .loop condition body, scope, keyed, _, _, resolved => by
    rcases resolve_loop_eq_ok.mp resolved with
      ⟨same, _, _, _, _, resolvedCondition, fits, resolvedBody, -⟩
    rw [same]
    rcases condition.typing_of_resolve keyed _ _ resolvedCondition with ⟨onCondition⟩
    have inside : (StaticScope.context scope.push).Keyed := by rwa [scope.context_push]
    have onBody := blockTyping_of_resolve body scope.push inside _ _ resolvedBody
    rw [scope.context_push] at onBody
    rcases onBody with ⟨onBody⟩
    exact ⟨.loop onCondition (Ty.mustAccept_eq_ok.mp fits) onBody⟩
  | .result value, scope, keyed, _, _, resolved => by
    rcases resolve_result_eq_ok.mp resolved with ⟨same, _, _, resolvedValue, fits, -⟩
    rw [same]
    rcases value.typing_of_resolve keyed _ _ resolvedValue with ⟨onValue⟩
    exact ⟨.result onValue (Ty.mustAccept_eq_ok.mp fits)⟩

theorem blockTyping_of_resolve : (ss : List Statement) → (scope : StaticScope) →
    scope.context.Keyed → ∀ trees after,
      resolveAll types returns ss scope = ⟨trees, .ok after⟩ →
      Nonempty (BlockTyping types returns scope.context ss)
  | [], _, _, _, _, _ => ⟨.nil⟩
  | s :: ss, scope, keyed, _, _, resolved => by
    rcases resolveAll_cons_eq_ok.mp resolved with ⟨_, middle, _, resolvedFirst, resolvedOthers, -⟩
    rcases typing_of_resolve s scope keyed _ _ resolvedFirst with ⟨first⟩
    have keyedMiddle : middle.context.Keyed := by
      rwa [Context.Keyed, first.functions_eq]
    rcases blockTyping_of_resolve ss middle keyedMiddle _ _ resolvedOthers with ⟨others⟩
    exact ⟨.cons first others⟩

end

end Statement

/-! ## Methods -/

theorem mapM_eq_ok_of_forall₂ {ε α β : Type} {f : α → Except ε β} {as : List α} {bs : List β}
    (all : List.Forall₂ (fun a b => f a = .ok b) as bs) : as.mapM f = .ok bs := by
  induction all with
  | nil => rfl
  | cons found _ ih =>
    rw [List.mapM_cons, found, ih]
    rfl

namespace Method

variable {types : Registry} {method tree : Method} {scope after : StaticScope}

theorem hasSignature_iff {signature : Signature} :
    method.signature types = .ok signature ↔ method.HasSignature types signature := by
  constructor
  · intro declared
    rcases exists_of_bind_eq_ok declared with ⟨parameters, parameters_eq, rest⟩
    have found := (forall₂_of_mapM_eq_ok parameters_eq).imp fun _ _ => Registry.get_eq_ok.mp
    cases named : method.returnTypeName with
    | none =>
      simp only [named] at rest
      cases rest
      exact ⟨rfl, rfl, found, by rw [named]; rfl⟩
    | some name =>
      simp only [named] at rest
      rcases exists_of_bind_eq_ok rest with ⟨returns, returns_eq, same⟩
      cases same
      exact ⟨rfl, rfl, found, by rw [named]; exact Registry.get_eq_ok.mp returns_eq⟩
  · intro has
    have parameters_eq := mapM_eq_ok_of_forall₂
      (has.parameters.imp fun _ _ => Registry.get_eq_ok.mpr)
    have returns := has.returns
    rcases signature with ⟨name, javaName, parameters, result⟩
    cases has.name
    cases has.javaName
    unfold Method.signature
    rw [parameters_eq]
    cases named : method.returnTypeName with
    | none =>
      rw [named] at returns
      cases returns
      rfl
    | some name =>
      rw [named] at returns
      change types.get name >>= _ = _
      rw [Registry.get_eq_ok.mpr returns]
      rfl

/-- Parameters are declared one after the other, so no two of them may have one name. -/
theorem context_of_declareAll {pairs : List (Parameter × Ty)} {inside : StaticScope}
    (declared : pairs.foldlM (fun (scope : StaticScope) (parameter, type) =>
      scope.addVariable parameter.name ⟨parameter.name, parameter.name, type⟩) scope =
        .ok inside) :
    inside.context = scope.context.declareAll pairs ∧ (pairs.map (·.1.name)).Nodup ∧
      ∀ pair ∈ pairs, scope.context.current pair.1.name = none := by
  induction pairs generalizing scope with
  | nil =>
    cases declared
    exact ⟨rfl, List.nodup_nil, List.forall_mem_nil _⟩
  | cons pair pairs ih =>
    rcases pair with ⟨parameter, type⟩
    rw [List.foldlM_cons] at declared
    rcases exists_of_bind_eq_ok declared with ⟨middle, added, rest⟩
    rcases StaticScope.context_of_addVariable added with ⟨free, context_eq, -⟩
    rcases ih rest with ⟨inside_eq, distinct, others⟩
    have apart : ∀ other ∈ pairs, other.1.name ≠ parameter.name ∧
        scope.context.current other.1.name = none := by
      intro other member
      rw [← Context.current_declare_eq_none, ← context_eq]
      exact others other member
    refine ⟨by rw [inside_eq, context_eq]; rfl, ?_, ?_⟩
    · refine List.nodup_cons.mpr ⟨fun clash => ?_, distinct⟩
      rcases List.mem_map.mp clash with ⟨other, member, same⟩
      exact (apart other member).1 same
    · exact List.forall_mem_cons.mpr ⟨free, fun other member => (apart other member).2⟩

theorem exists_declareAll {pairs : List (Parameter × Ty)} (distinct : (pairs.map (·.1.name)).Nodup)
    (free : ∀ pair ∈ pairs, scope.context.current pair.1.name = none) :
    ∃ inside, pairs.foldlM (fun (scope : StaticScope) (parameter, type) =>
      scope.addVariable parameter.name ⟨parameter.name, parameter.name, type⟩) scope =
        .ok inside := by
  induction pairs generalizing scope with
  | nil => exact ⟨scope, rfl⟩
  | cons pair pairs ih =>
    rcases pair with ⟨parameter, type⟩
    rcases List.forall_mem_cons.mp free with ⟨here, others⟩
    rcases List.nodup_cons.mp distinct with ⟨apart, distinct⟩
    obtain ⟨middle, added⟩ : ∃ middle, scope.addVariable parameter.name
        ⟨parameter.name, parameter.name, type⟩ = .ok middle :=
      StaticScope.exists_addVariable here type
    have unbound : ∀ other ∈ pairs, (StaticScope.context middle).current other.1.name = none := by
      intro other member
      have different : other.1.name ≠ parameter.name := fun same =>
        apart (List.mem_map.mpr ⟨other, member, same⟩)
      rw [(StaticScope.context_of_addVariable added).2.1, Context.current_declare_eq_none]
      exact ⟨different, others other member⟩
    rcases ih distinct unbound with ⟨inside, declared⟩
    refine ⟨inside, ?_⟩
    rw [List.foldlM_cons]
    dsimp only
    rw [added]
    exact declared

/-- There is a parameter type for each parameter, so the pairs have the names of the parameters. -/
theorem HasSignature.pair_names {signature : Signature}
    (has : method.HasSignature types signature) :
    (method.parameters.zip signature.parameters).map (·.1.name) =
      method.parameters.map Parameter.name := by
  have first := List.map_fst_zip has.parameters.length_eq.le
  rw [← congrArg (List.map Parameter.name) first, List.map_map]
  rfl

theorem Typing.resolve_eq {context : Context} (typing : method.Typing types scope.context context)
    (atRoot : scope.inner = []) (empty : AllEmpty method.slots) :
    ∃ after, method.resolve types scope = ⟨typing.annotate, .ok after⟩ ∧ after.context = context ∧
      after.inner = [] := by
  rcases allEmpty_cons.mp empty with ⟨own, bodyEmpty⟩
  cases typing with
  | define signature has free distinct onBody =>
    have declared := hasSignature_iff.mpr has
    rw [← Method.key_of_signature declared] at free
    rcases (StaticScope.addFunction_eq_ok atRoot).mpr free with ⟨after, added⟩
    rcases StaticScope.context_of_addFunction atRoot added with ⟨context_eq, stillAtRoot⟩
    have unbound : ∀ pair ∈ method.parameters.zip signature.parameters,
        (StaticScope.context after.push).current pair.1.name = none := by
      rw [StaticScope.context_push]
      exact fun _ _ => rfl
    rw [← has.pair_names] at distinct
    rcases exists_declareAll distinct unbound with ⟨inside, inside_eq⟩
    have inside_context : inside.context = _ := (context_of_declareAll inside_eq).1
    rw [StaticScope.context_push, context_eq] at inside_context
    rcases onBody.resolve_eq method.body inside _ inside_context bodyEmpty with
      ⟨bodyScope, resolvedBody⟩
    refine ⟨after, ?_, context_eq, stillAtRoot⟩
    exact resolve_eq_ok.mpr ⟨own, signature, inside, _, bodyScope, declared, added, inside_eq,
      resolvedBody, rfl⟩

theorem typing_of_resolve (keyed : scope.context.Keyed) (atRoot : scope.inner = [])
    (resolved : method.resolve types scope = ⟨tree, .ok after⟩) :
    Nonempty (method.Typing types scope.context after.context) ∧ after.context.Keyed ∧
      after.inner = [] := by
  rcases resolve_eq_ok.mp resolved with
    ⟨-, signature, inside, body, bodyScope, declared, added, inside_eq, resolvedBody, -⟩
  have has := hasSignature_iff.mp declared
  have free := (StaticScope.addFunction_eq_ok atRoot).mp ⟨after, added⟩
  rw [Method.key_of_signature declared] at free
  rcases StaticScope.context_of_addFunction atRoot added with ⟨context_eq, stillAtRoot⟩
  rcases context_of_declareAll inside_eq with ⟨inside_context, distinct, -⟩
  rw [has.pair_names] at distinct
  rw [StaticScope.context_push, context_eq] at inside_context
  have keyedInside : inside.context.Keyed := by
    rw [Context.Keyed, inside_context, Context.functions_declareAll]
    exact keyed.define signature
  have onBody := Statement.blockTyping_of_resolve method.body inside keyedInside _ _ resolvedBody
  rw [inside_context] at onBody
  rcases onBody with ⟨onBody⟩
  rw [context_eq]
  exact ⟨⟨.define signature has free distinct onBody⟩, keyed.define signature, stillAtRoot⟩

end Method

/-! ## Programs -/

section

variable {α : Type} {step : Context → α → Context → Type}

/-- If a derivation for an item shows how its walk goes, so do derivations for the items of a
list. -/
theorem Context.Steps.each_eq (walk : α → StaticScope → Attempt α StaticScope)
    (annotate : ∀ {context item after}, step context item after → α) {parts : α → List Slot}
    (one : ∀ (scope : StaticScope) item context (typing : step scope.context item context),
      scope.inner = [] → AllEmpty (parts item) →
      ∃ after, walk item scope = ⟨annotate typing, .ok after⟩ ∧ after.context = context ∧
        after.inner = []) :
    ∀ (items : List α) (scope : StaticScope) start context
      (typing : Steps step start items context),
      scope.context = start → scope.inner = [] → (∀ item ∈ items, AllEmpty (parts item)) →
      ∃ after, Attempt.each walk items scope = ⟨typing.annotate annotate, .ok after⟩ ∧
        after.context = context ∧ after.inner = []
  | [], scope, _, _, .nil, same, atRoot, _ =>
    ⟨scope, Attempt.each_nil_eq_ok.mpr ⟨rfl, rfl⟩, same, atRoot⟩
  | item :: items, scope, _, _, .cons first others, rfl, atRoot, empty => by
    rcases List.forall_mem_cons.mp empty with ⟨firstEmpty, othersEmpty⟩
    rcases one scope item _ first atRoot firstEmpty with ⟨middle, walked, same, stillAtRoot⟩
    rcases Steps.each_eq walk annotate one items middle _ _ others same stillAtRoot othersEmpty with
      ⟨after, walkedOthers, context_eq, atRootAfter⟩
    exact ⟨after, Attempt.each_cons_eq_ok.mpr ⟨_, middle, _, walked, walkedOthers, rfl⟩,
      context_eq, atRootAfter⟩

/-- If a walk of an item that succeeds shows a derivation, so does a walk of a list. -/
theorem Context.steps_of_each {walk : α → StaticScope → Attempt α StaticScope}
    (one : ∀ (scope : StaticScope) item tree after, scope.context.Keyed → scope.inner = [] →
      walk item scope = ⟨tree, .ok after⟩ →
      Nonempty (step scope.context item after.context) ∧ after.context.Keyed ∧ after.inner = [])
    {items trees : List α} {scope after : StaticScope} (keyed : scope.context.Keyed)
    (atRoot : scope.inner = [])
    (walked : Attempt.each walk items scope = ⟨trees, .ok after⟩) :
    Nonempty (Steps step scope.context items after.context) ∧ after.context.Keyed ∧
      after.inner = [] := by
  induction items generalizing scope trees with
  | nil =>
    rcases Attempt.each_nil_eq_ok.mp walked with ⟨-, rfl⟩
    exact ⟨⟨.nil⟩, keyed, atRoot⟩
  | cons item items ih =>
    rcases Attempt.each_cons_eq_ok.mp walked with ⟨_, middle, _, walkedFirst, walkedOthers, -⟩
    rcases one scope item _ middle keyed atRoot walkedFirst with ⟨⟨first⟩, keyed, atRoot⟩
    rcases ih keyed atRoot walkedOthers with ⟨⟨others⟩, keyed, atRoot⟩
    exact ⟨⟨.cons first others⟩, keyed, atRoot⟩

end

namespace Program

variable {environment : Environment} {program tree : Program}

theorem Typing.resolve_eq (built : environment.Built) (typing : program.Typing environment)
    (empty : AllEmpty program.slots) :
    program.resolve environment = ⟨typing.annotate, .ok ()⟩ := by
  rcases allEmpty_append.mp empty with ⟨fieldsEmpty, methodsEmpty⟩
  rcases typing with ⟨globals, complete, main, fields, methods, found, returns⟩
  rcases built.exists_staticScope with ⟨natives, defined, context_eq, atRoot⟩
  have oneField : ∀ (scope : StaticScope) decl context
      (typing : decl.Typing environment.types scope.context context), scope.inner = [] →
      AllEmpty decl.slots → ∃ after,
        Declaration.resolve environment.types decl scope = ⟨typing.annotate, .ok after⟩ ∧
          after.context = context ∧ after.inner = [] := by
    intro scope decl context typing atRoot empty
    rcases typing.resolve_eq empty with ⟨after, resolved, context_eq, stillAtRoot⟩
    exact ⟨after, resolved, context_eq, stillAtRoot atRoot⟩
  rcases Context.Steps.each_eq (Declaration.resolve environment.types) Declaration.Typing.annotate
    oneField program.fields natives _ _ fields context_eq atRoot
    (allEmpty_flatMap.mp fieldsEmpty) with ⟨fieldScope, walkedFields, context_eq, atRoot⟩
  have oneMethod : ∀ (scope : StaticScope) method context
      (typing : method.Typing environment.types scope.context context), scope.inner = [] →
      AllEmpty method.slots → ∃ after,
        Method.resolve environment.types method scope = ⟨typing.annotate, .ok after⟩ ∧
          after.context = context ∧ after.inner = [] :=
    fun _ _ _ typing => typing.resolve_eq
  rcases Context.Steps.each_eq (Method.resolve environment.types) Method.Typing.annotate
    oneMethod program.methods fieldScope _ _ methods context_eq atRoot
    (allEmpty_flatMap.mp methodsEmpty) with ⟨methodScope, walkedMethods, context_eq, -⟩
  rw [← context_eq] at found
  exact resolve_eq_ok.mpr ⟨natives, fieldScope, methodScope, defined, walkedFields, walkedMethods,
    StaticScope.requireMain_eq_ok.mpr ⟨main, found, returns⟩⟩

theorem typing_of_resolve (built : environment.Built)
    (resolved : program.resolve environment = ⟨tree, .ok ()⟩) :
    Nonempty (program.Typing environment) := by
  rcases resolve_eq_ok.mp resolved with ⟨natives, globals, complete, defined, fields, methods, main⟩
  rcases built.exists_staticScope with ⟨natives', defined', context_eq, atRoot⟩
  cases Except.ok.inj (defined.symm.trans defined')
  have keyed : natives.context.Keyed := by
    rw [context_eq]
    exact environment.keyed_context
  rcases Context.steps_of_each (fun _ _ _ _ => Declaration.typing_of_field) keyed atRoot fields with
    ⟨⟨onFields⟩, keyed, atRoot⟩
  rcases Context.steps_of_each (fun _ _ _ _ => Method.typing_of_resolve) keyed atRoot methods with
    ⟨⟨onMethods⟩, -, -⟩
  rcases StaticScope.requireMain_eq_ok.mp main with ⟨signature, found, returns⟩
  rw [context_eq] at onFields
  exact ⟨⟨_, _, signature, onFields, onMethods, found, returns⟩⟩

/-- The stages that a source has passed which loads. -/
theorem stages_of_load {source : String}
    (loaded : environment.load source = .ok program) :
    ∃ tokens tree, Token.scan source = .ok tokens ∧ Program.ofTokens tokens = .ok tree ∧
      tree.resolve environment = ⟨program, .ok ()⟩ := by
  rcases Environment.load_eq_ok.mp loaded with ⟨tree, parsed, checked⟩
  rcases parse_eq_ok.mp parsed with ⟨tokens, scanned, read⟩
  exact ⟨tokens, tree, scanned, read, check_eq_ok.mp checked⟩

/-- A source loads if and only if what it is read as is typed, and it loads as the derivation
says. -/
theorem load_iff_typing (built : environment.Built) {source : String} :
    environment.load source = .ok program ↔
      ∃ tree, parse source = .ok tree ∧
        ∃ typing : tree.Typing environment, typing.annotate = program := by
  rw [Environment.load_eq_ok]
  refine exists_congr fun tree => and_congr_right fun parsed => ?_
  rcases parse_eq_ok.mp parsed with ⟨tokens, -, read⟩
  have empty := allEmpty_of_ofTokens read
  rw [check_eq_ok]
  constructor
  · intro resolved
    rcases typing_of_resolve built resolved with ⟨typing⟩
    rw [typing.resolve_eq built empty] at resolved
    exact ⟨typing, congrArg Attempt.tree resolved⟩
  · rintro ⟨typing, rfl⟩
    exact typing.resolve_eq built empty

/-- The check of a program that has just been read succeeds if and only if the program is typed.
Then there is one derivation, and the check leaves in every slot the type or the binding that this
derivation has there. -/
theorem resolve_decides_typing (built : environment.Built) {tokens : List Token}
    (read : Program.ofTokens tokens = .ok program) :
    ((program.resolve environment).result = .ok () ↔ Nonempty (program.Typing environment)) ∧
      ∀ typing : program.Typing environment,
        (∀ other : program.Typing environment, other = typing) ∧
          (program.resolve environment).tree = typing.annotate := by
  have empty := allEmpty_of_ofTokens read
  refine ⟨⟨fun accepted => ?_, ?_⟩, fun typing => ⟨fun other => other.unique typing, ?_⟩⟩
  · have resolved : program.resolve environment = ⟨(program.resolve environment).tree, .ok ()⟩ := by
      rw [← accepted]
    exact typing_of_resolve built resolved
  · rintro ⟨typing⟩
    rw [typing.resolve_eq built empty]
  · rw [typing.resolve_eq built empty]

/-- A program with a field of a nominal type and a loop that hides it. -/
def countingTokens : List Token :=
  word ["LET", "c", "=", "counter", "(", ")", ";", "DEF", "main", "(", ")", ":", "Integer", "DO",
    "FOR", "c", "IN", "range", "(", "c", ".", "count", ",", "c", ".", "increment", "("] ++
  ⟨.integer, "3", ⟨0, 0⟩⟩ :: word [")", ")", "DO", "print", "(", "c", ")", ";", "END",
    "RETURN", "c", ".", "count", ";", "END"]
where
  word (texts : List String) : List Token := texts.map fun text => ⟨.identifier, text, ⟨0, 0⟩⟩

theorem resolve_decides_typing_counting :
    ∃ program, Program.ofTokens countingTokens = .ok program ∧
      (program.resolve .counter).result = .ok () ∧
      ∃ typing : program.Typing .counter, (program.resolve .counter).tree = typing.annotate := by
  have built : Environment.counter.Built := by
    rcases exists_of_bind_eq_ok Environment.counter_eq with ⟨extended, typed, created⟩
    exact .addFunction (.addType .standard typed) created
  have accepted : ∃ program, Program.ofTokens countingTokens = .ok program ∧
      (program.resolve .counter).result = .ok () := by
    decide +kernel
  rcases accepted with ⟨program, read, passed⟩
  have decides := resolve_decides_typing built read
  rcases decides.1.mp passed with ⟨typing⟩
  exact ⟨program, read, passed, typing, (decides.2 typing).2⟩

end Program

end Primer
