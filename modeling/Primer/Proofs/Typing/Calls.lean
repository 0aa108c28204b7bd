import Primer.Proofs.Syntax.Everywhere
import Primer.Proofs.Typing.Decision

/-!
# What a checked program calls

A field can call natives only, and a method can call natives, itself and the methods before it.
That is a matter of the contexts that a derivation goes through, one method after the other
(`Program.Typing.calls_of_field`, `Program.Typing.calls_of_method`).
-/

namespace Primer

/-- The functions of the context. -/
def Context.Has (context : Context) (key : FunctionKey) : Prop :=
  ∃ signature, context.functions key = some signature

theorem Context.has_congr {context other : Context} (same : other.functions = context.functions) :
    other.Has = context.Has := by
  unfold Has
  rw [same]

/-- At the start there are natives only. -/
theorem Environment.has_iff {environment : Environment} {key : FunctionKey} :
    environment.context.Has key ↔
      ∃ function ∈ environment.functions, function.signature.key = key := by
  unfold Context.Has
  rw [← Option.isSome_iff_exists, context, Option.isSome_map, List.find?_isSome]
  simp only [beq_iff_eq]

namespace Expression

variable {context : Context}

theorem ArgumentTyping.length_annotate : (es : List Expression) → (types : List Ty) →
    (typing : ArgumentTyping context es types) → typing.annotate.length = es.length
  | [], [], .nil => rfl
  | _ :: es, _ :: types, .cons _ _ others =>
    congrArg (· + 1) (ArgumentTyping.length_annotate es types others)

mutual

/-- A typed expression calls functions of its context. -/
theorem Typing.calls : (e : Expression) → (type : Ty) → (typing : Typing context e type) →
    ∀ part ∈ typing.annotate.parts, part.Calls context.Has
  | .literal _ _, _, .literal _ => List.forall_mem_singleton.mpr trivial
  | .group _ e, _, .group inner => List.forall_mem_cons.mpr ⟨trivial, Typing.calls e _ inner⟩
  | .binary _ _ left right, _, .binary onLeft onRight _ =>
    List.forall_mem_cons.mpr ⟨trivial, List.forall_mem_append.mpr
      ⟨Typing.calls left _ onLeft, Typing.calls right _ onRight⟩⟩
  | .access _ _ _, _, .access _ _ => List.forall_mem_singleton.mpr trivial
  | .memberAccess _ receiver _ _, _, .memberAccess onReceiver _ =>
    List.forall_mem_cons.mpr ⟨trivial, Typing.calls receiver _ onReceiver⟩
  | .call _ _ args _, _, .call signature found onArgs => by
    refine List.forall_mem_cons.mpr ⟨⟨signature, ?_⟩, ArgumentTyping.calls args _ onArgs⟩
    rw [onArgs.length_annotate]
    exact found
  | .memberCall _ receiver _ args _, _, .memberCall _ onReceiver _ onArgs =>
    List.forall_mem_cons.mpr ⟨trivial, List.forall_mem_append.mpr
      ⟨Typing.calls receiver _ onReceiver, ArgumentTyping.calls args _ onArgs⟩⟩

theorem ArgumentTyping.calls : (es : List Expression) → (types : List Ty) →
    (typing : ArgumentTyping context es types) →
    ∀ part ∈ allParts typing.annotate, part.Calls context.Has
  | [], [], .nil => List.forall_mem_nil _
  | e :: es, _ :: types, .cons first _ others =>
    List.forall_mem_append.mpr ⟨Typing.calls e _ first, ArgumentTyping.calls es types others⟩

end

end Expression

theorem Declaration.Typing.calls {types : Registry} {context after : Context} {decl : Declaration}
    (typing : decl.Typing types context after) :
    ∀ e ∈ typing.annotate.expressions, e.Calls context.Has := by
  rcases decl with ⟨name, typeName, value, span, binding⟩
  cases typing with
  | declare type onType free =>
    cases onType with
    | named => exact List.forall_mem_nil _
    | @valued value _ onValue | @both _ value _ _ _ onValue =>
      intro e member
      rcases List.mem_flatMap.mp member with ⟨filled, found, member⟩
      cases List.mem_singleton.mp found
      exact onValue.calls value _ e member

namespace Statement

variable {types : Registry} {returns : Ty}

mutual

theorem Typing.calls : (s : Statement) → (context after : Context) →
    (typing : Typing types returns context s after) →
    ∀ e ∈ typing.annotate.expressions, e.Calls context.Has
  | .expression value, _, _, .expression _ onValue => onValue.calls value _
  | .declaration _, _, _, .declaration onDecl => onDecl.calls
  | .assignment target value, _, _, .assignment _ onTarget onValue _ =>
    List.forall_mem_append.mpr ⟨onTarget.calls target _, onValue.calls value _⟩
  | .conditional condition thenBody elseBody, _, _, .conditional onCondition _ _ onThen onElse =>
    List.forall_mem_append.mpr ⟨onCondition.calls condition _, List.forall_mem_append.mpr
      ⟨BlockTyping.calls thenBody _ onThen, BlockTyping.calls elseBody _ onElse⟩⟩
  | .forEach _ range body, _, _, .forEach onRange _ _ onBody =>
    List.forall_mem_append.mpr ⟨onRange.calls range _, BlockTyping.calls body _ onBody⟩
  | .loop condition body, _, _, .loop onCondition _ onBody =>
    List.forall_mem_append.mpr ⟨onCondition.calls condition _, BlockTyping.calls body _ onBody⟩
  | .result value, _, _, .result onValue _ => onValue.calls value _

theorem BlockTyping.calls : (ss : List Statement) → (context : Context) →
    (typing : BlockTyping types returns context ss) →
    ∀ e ∈ allExpressions typing.annotate, e.Calls context.Has
  | [], _, .nil => List.forall_mem_nil _
  | s :: ss, context, .cons first others => by
    have rest := BlockTyping.calls ss _ others
    rw [Context.has_congr first.functions_eq] at rest
    exact List.forall_mem_append.mpr ⟨Typing.calls s _ _ first, rest⟩

end

end Statement

/-! ## Programs -/

/-- What a method of the list calls is known, or it is a method that does not come behind it. -/
def Method.CallBack (known : FunctionKey → Prop) (methods : List Method) : Prop :=
  ∀ (number : Nat) (method : Method), methods[number]? = some method →
    ∀ e ∈ Statement.allExpressions method.body, e.Calls fun key => known key ∨
      ∃ (earlier : Nat) (callee : Method), earlier ≤ number ∧ methods[earlier]? = some callee ∧
        callee.key = key

/-- One more method in front.  It calls what is known and itself, and the others may call it. -/
theorem Method.CallBack.cons {known : FunctionKey → Prop} {method : Method} {methods : List Method}
    (own : ∀ e ∈ Statement.allExpressions method.body,
      e.Calls fun key => known key ∨ method.key = key)
    (others : CallBack (fun key => known key ∨ method.key = key) methods) :
    CallBack known (method :: methods) := by
  intro number caller found e member
  rcases number with _ | number
  · cases found
    refine (own e member).mono fun key => Or.imp_right fun same => ?_
    exact ⟨0, method, le_rfl, rfl, same⟩
  · refine (others number caller found e member).mono fun key calls => ?_
    rcases calls with (before | same) | ⟨earlier, callee, le, found, same⟩
    · exact .inl before
    · exact .inr ⟨0, method, Nat.zero_le _, rfl, same⟩
    · exact .inr ⟨earlier + 1, callee, Nat.succ_le_succ le, found, same⟩

namespace Context.Steps

variable {types : Registry} {start after : Context}

/-- Fields define no functions, so each of them sees those that were there at the start. -/
theorem calls_of_fields : (sources : List Declaration) → (start after : Context) →
    (steps : Steps (Declaration.Typing types) start sources after) →
    after.functions = start.functions ∧
      ∀ field ∈ steps.annotate Declaration.Typing.annotate,
        ∀ e ∈ field.expressions, e.Calls start.Has
  | [], _, _, .nil => ⟨rfl, List.forall_mem_nil _⟩
  | _ :: sources, _, _, .cons (.declare type onType free) others => by
    rcases calls_of_fields sources _ _ others with ⟨same, calls⟩
    exact ⟨same, List.forall_mem_cons.mpr
      ⟨Declaration.Typing.calls (.declare type onType free), calls⟩⟩

theorem has_define {context : Context} {signature : Signature} {key : FunctionKey} :
    (context.define signature).Has key ↔ context.Has key ∨ signature.key = key := by
  by_cases same : key = signature.key
  · subst same
    exact ⟨fun _ => .inr rfl, fun _ => ⟨signature, functions_define_self⟩⟩
  · rw [Has, functions_define_of_ne same]
    exact ⟨.inl, fun known => known.resolve_right (Ne.symm same)⟩

/-- A method sees the functions that were there at the start, itself, and the methods before it. -/
theorem callBack_of_methods : (sources : List Method) → (start after : Context) →
    (steps : Steps (Method.Typing types) start sources after) →
    Method.CallBack start.Has (steps.annotate Method.Typing.annotate)
  | [], _, _, .nil => nofun
  | source :: sources, start, _, .cons (.define signature has free distinct onBody) others => by
    have key_eq : signature.key = source.key :=
      Method.key_of_signature (Method.hasSignature_iff.mpr has)
    have seen : (start.define signature).Has = fun key => start.Has key ∨ source.key = key := by
      funext key
      rw [← key_eq]
      exact propext has_define
    have inside : Context.Has ((start.define signature).inner.declareAll
        (source.parameters.zip signature.parameters)) = (start.define signature).Has :=
      has_congr (functions_declareAll _)
    have own := onBody.calls source.body _
    have rest := callBack_of_methods sources _ _ others
    rw [inside, seen] at own
    rw [seen] at rest
    exact Method.CallBack.cons own rest

/-- The functions there are in the end: those that were there at the start, and the methods. -/
theorem has_of_methods : (sources : List Method) → (start after : Context) →
    Steps (Method.Typing types) start sources after → ∀ {key : FunctionKey}, after.Has key →
    start.Has key ∨ key ∈ sources.map Method.key
  | [], _, _, .nil, _, has => .inl has
  | source :: sources, _, after, .cons (.define signature hasSignature _ _ _) others, key, has => by
    have key_eq : signature.key = source.key :=
      Method.key_of_signature (Method.hasSignature_iff.mpr hasSignature)
    rw [List.map_cons, List.mem_cons]
    rcases has_of_methods sources _ after others has with before | behind
    · rcases has_define.mp before with before | rfl
      · exact .inl before
      · exact .inr (.inl key_eq)
    · exact .inr (.inr behind)

/-- A method keeps its key when its slots are filled. -/
theorem keys_annotate : (sources : List Method) → (start after : Context) →
    (steps : Steps (Method.Typing types) start sources after) →
    (steps.annotate Method.Typing.annotate).map Method.key = sources.map Method.key
  | [], _, _, .nil => rfl
  | _ :: sources, _, after, .cons (.define ..) others =>
    congrArg (List.cons _) (keys_annotate sources _ after others)

end Context.Steps

namespace Program

variable {environment : Environment} {program : Program}

theorem Typing.keys_annotate (typing : program.Typing environment) :
    typing.annotate.methods.map Method.key = program.methods.map Method.key :=
  Context.Steps.keys_annotate _ _ _ typing.methods

/-- Fields call natives. -/
theorem Typing.calls_of_field (typing : program.Typing environment) :
    ∀ field ∈ typing.annotate.fields, ∀ e ∈ field.expressions,
      e.Calls environment.context.Has :=
  (Context.Steps.calls_of_fields _ _ _ typing.fields).2

/-- Methods call natives, themselves, and methods before them. -/
theorem Typing.callBack (typing : program.Typing environment) :
    Method.CallBack environment.context.Has typing.annotate.methods := by
  have back := Context.Steps.callBack_of_methods _ _ _ typing.methods
  rw [Context.has_congr (Context.Steps.calls_of_fields _ _ _ typing.fields).1] at back
  exact back

end Program

end Primer
