import Primer.Proofs.Soundness.Obligations

/-!
# Expressions keep the link

One lemma for every kind of expression: its plan, from a machine that is linked to the checker's
visit of the node, comes to allowed activities only and gives a value of the type that checking
found.
-/

namespace Primer

section

variable {environment : Environment} {checked : Checked environment}
  {discipline : Discipline environment} {stage : Stage} {spot : Spot} {scope : StaticScope}
  {returns type : Ty} {bound : Nat} {machine : Machine} {note note' : Note}

/-! ## Single steps -/

theorem truth_meets {α : Type} {activity : Activity} {final : α → Machine → Prop} {value : Value}
    {next : Bool → Plan α} (fits : discipline.fits machine.effects.store .boolean value)
    (rest : ∀ truth, (next truth).Meets (checked.contract discipline)
      ((checked.contract discipline).fault activity) final machine) :
    (Task.whenTrue value next).Meets (checked.contract discipline)
      ((checked.contract discipline).fault activity) final machine := by
  cases found : value.toBool with
  | ok truth => exact .of_value (by rw [found]; rfl) (rest truth)
  | error error => exact .of_error (by rw [found]; rfl) (.inl (discipline.truth fits found))

theorem keeps_meets {α β : Type} {activity : Activity} {final : α → Machine → Prop}
    {work : Eval β} {good : Store → β → Prop} {next : β → Plan α}
    (keeps : Eval.Keeps discipline.sound discipline.harmless machine work good)
    (rest : ∀ value after, after.scope = machine.scope → discipline.sound after.effects.store →
      machine.effects.store.Grows after.effects.store → good after.effects.store value →
      (next value).Meets (checked.contract discipline)
        ((checked.contract discipline).fault activity) final after) :
    (Plan.step work next).Meets (checked.contract discipline)
      ((checked.contract discipline).fault activity) final machine := by
  refine ⟨fun value after ended => ?_, fun error after ended => .inl (keeps.of_error _ _ ended)⟩
  obtain ⟨same, sound, grows, good⟩ := keeps.of_value value after ended
  exact rest value after same sound grows good

/-! ## Operators -/

theorem Operator.type_logical {operator : Operator} {left right : Ty}
    (logical : operator.precedence = .logical) (typed : operator.type left right = .ok type) :
    Ty.boolean.mustAccept left = .ok () ∧ Ty.boolean.mustAccept right = .ok () ∧
      type = .boolean := by
  rw [Operator.type, logical] at typed
  obtain ⟨⟨⟩, first, rest⟩ := exists_of_bind_eq_ok typed
  obtain ⟨⟨⟩, second, same⟩ := exists_of_bind_eq_ok rest
  exact ⟨first, second, (Except.ok.inj same).symm⟩

theorem logical_meets {operator : Operator} {left left' right right' : Expression}
    {leftType rightType : Ty} (decisive : Bool) (activity : Activity)
    (logical : operator.precedence = .logical)
    (visits : checked.Visits spot (.expression (.binary note operator left right)) scope returns)
    (linked : Linked checked discipline stage scope spot.binders machine)
    (leftResolved : left.resolve scope = ⟨left', .ok leftType⟩)
    (rightResolved : right.resolve scope = ⟨right', .ok rightType⟩)
    (typed : operator.type leftType rightType = .ok type) :
    (Task.logicalPlan decisive spot bound left' right').Meets (checked.contract discipline)
      ((checked.contract discipline).fault activity)
      (Gives checked discipline stage scope spot.binders type machine) machine := by
  obtain ⟨leftBoolean, rightBoolean, rfl⟩ := Operator.type_logical logical typed
  refine ⟨_, .expression (visits.down rfl rfl) linked leftResolved,
    fun first between _ ⟨kept, fits⟩ => ?_⟩
  refine truth_meets (Discipline.fits_of_mustAccept leftBoolean Discipline.known_boolean fits)
    fun truth => ?_
  split
  · exact ⟨kept, discipline.fits_boolean _⟩
  · refine ⟨_, .expression (visits.down rfl rfl) kept.linked rightResolved,
      fun second after _ ⟨kept', fits'⟩ => ?_⟩
    refine truth_meets (Discipline.fits_of_mustAccept rightBoolean Discipline.known_boolean fits')
      fun truth => ?_
    exact ⟨kept'.onTop kept, discipline.fits_boolean _⟩

theorem strict_meets {operator : Operator} {left left' right right' : Expression}
    {leftType rightType : Ty} (strict : operator.precedence ≠ .logical)
    (visits : checked.Visits spot (.expression (.binary note operator left right)) scope returns)
    (linked : Linked checked discipline stage scope spot.binders machine)
    (leftResolved : left.resolve scope = ⟨left', .ok leftType⟩)
    (rightResolved : right.resolve scope = ⟨right', .ok rightType⟩)
    (typed : operator.type leftType rightType = .ok type) :
    (Task.expressionPlan spot bound (.binary note' operator left' right')).Meets
      (checked.contract discipline)
      ((checked.contract discipline).fault
        ⟨.expression spot (.binary note' operator left' right'), bound, machine⟩)
      (Gives checked discipline stage scope spot.binders type machine) machine := by
  rw [Task.expressionPlan_strict strict]
  refine ⟨_, .expression (visits.down rfl rfl) linked leftResolved,
    fun first between evaluated ⟨kept, fits⟩ => ?_⟩
  refine ⟨_, .expression (visits.down rfl rfl) kept.linked rightResolved,
    fun second after evaluated' ⟨kept', fits'⟩ => ?_⟩
  obtain ⟨ofValue, ofError⟩ :=
    discipline.operation strict typed (discipline.fits_of_grows kept'.grows fits) fits'
  cases applied : operator.apply first second with
  | ok value =>
    refine .of_value (by rw [applied]; rfl) ?_
    exact ⟨kept'.onTop kept, ofValue value applied⟩
  | error error =>
    refine .of_error (by rw [applied]; rfl) ?_
    rcases ofError error applied with harmless | mixes
    · exact .inl harmless
    · exact .inr
        (.intro (Expression.type_of_resolve leftResolved) evaluated evaluated' applied mixes)

/-! ## Variables and fields -/

theorem access_meets {name : String} {binding : Option Variable} {found : Variable}
    (activity : Activity) (linked : Linked checked discipline stage scope spot.binders machine)
    (bound_eq : scope.getVariable name = .ok found) :
    (Task.expressionPlan spot bound (.access note' name binding)).Meets
      (checked.contract discipline) ((checked.contract discipline).fault activity)
      (Gives checked discipline stage scope spot.binders found.type machine) machine := by
  obtain ⟨value, value_eq, fits⟩ := linked.values.getVariable bound_eq
  refine .of_value (by rw [Eval.inspectScope, value_eq]; rfl) ?_
  exact ⟨.refl linked, fits⟩

theorem memberAccess_meets {receiver receiver' : Expression} {name : String} {owner : Ty}
    {binding binding' : Option Variable} (activity : Activity)
    (visits : checked.Visits spot (.expression (.memberAccess note receiver name binding)) scope
      returns)
    (linked : Linked checked discipline stage scope spot.binders machine)
    (resolved : receiver.resolve scope = ⟨receiver', .ok owner⟩)
    (field : owner.field name = .ok type) :
    (Task.expressionPlan spot bound (.memberAccess note' receiver' name binding')).Meets
      (checked.contract discipline) ((checked.contract discipline).fault activity)
      (Gives checked discipline stage scope spot.binders type machine) machine := by
  refine ⟨_, .expression (visits.down rfl rfl) linked resolved, fun value between _ given => ?_⟩
  obtain ⟨kept, fits⟩ := given
  refine keeps_meets (discipline.reading kept.linked.sound fits field) ?_
  intro value after same sound grows fits
  exact ⟨⟨kept.linked.effects same sound grows, kept.grows.trans grows⟩, fits⟩

/-! ## Calls -/

/-- The machine after a call: native code leaves the scopes alone, and a method puts the frames of
its caller back. -/
def Called (checked : Checked environment) (discipline : Discipline environment) (stage : Stage)
    (before after : Machine) : Prop :=
  before.effects.store.Grows after.effects.store ∧
    (after.scope = before.scope ∧ discipline.sound after.effects.store ∨
      stage = .methods ∧ Rooted checked discipline after ∧ after.scope.inner = before.scope.inner)

theorem Linked.called {binders : Binders} {after : Machine}
    (linked : Linked checked discipline stage scope binders machine)
    (called : Called checked discipline stage machine after) :
    Linked checked discipline stage scope binders after := by
  obtain ⟨grows, ⟨same, sound⟩ | ⟨rfl, rooted, same⟩⟩ := called
  · exact linked.effects same sound grows
  · exact linked.of_rooted rooted same grows

theorem apply_meets {α : Type} {activity : Activity} {final : α → Machine → Prop}
    {binders : Binders} {signature : Signature} {body : FunctionBody} {values : List Value}
    {next : Value → Plan α} (callable : checked.Callable stage signature body)
    (sound : discipline.sound machine.effects.store)
    (rooted : stage = .methods → Rooted checked discipline machine ∧
      binders.root = checked.binders.root)
    (fits : List.Forall₂ (discipline.fits machine.effects.store) signature.parameters values)
    (rest : ∀ value after, Called checked discipline stage machine after →
      discipline.fits after.effects.store signature.returns value →
      (next value).Meets (checked.contract discipline)
        ((checked.contract discipline).fault activity) final after) :
    (Task.applyPlan binders bound body values next).Meets (checked.contract discipline)
      ((checked.contract discipline).fault activity) final machine := by
  cases body with
  | native code =>
    obtain ⟨function, member, rfl, rfl⟩ := callable
    refine keeps_meets (discipline.native function member sound fits) ?_
    intro value after same sound grows fits
    exact rest value after ⟨grows, .inl ⟨same, sound⟩⟩ fits
  | defined method =>
    obtain ⟨rfl, defines⟩ := callable
    obtain ⟨rooted, places⟩ := rooted rfl
    refine ⟨_, .invocation defines places rooted fits, fun value after _ ended => ?_⟩
    obtain ⟨rooted, same, grows, fits⟩ := ended
    exact rest value after ⟨grows, .inr ⟨rfl, rooted, same⟩⟩ fits

theorem Checked.Callable.known {signature : Signature} {body : FunctionBody}
    (callable : checked.Callable stage signature body) (discipline : Discipline environment) :
    ∀ parameter ∈ signature.parameters, discipline.known parameter := by
  cases body with
  | native code =>
    obtain ⟨function, member, rfl, -⟩ := callable
    exact discipline.known_function function member
  | defined method =>
    obtain ⟨-, source, _, _, _, -, -, signature_eq, -⟩ := callable
    have parameters := (Method.signature_eq_ok signature_eq).2.1
    generalize source.parameters = names, signature.parameters = types at parameters
    induction parameters with
    | nil => exact nofun
    | cons found _ ih => exact List.forall_mem_cons.mpr ⟨discipline.known_of_get found, ih⟩

theorem call_meets {name : String} {args args' : List Expression} {signature : Signature}
    {binding binding' : Option Signature} (activity : Activity)
    (visits : checked.Visits spot (.expression (.call note name args binding)) scope returns)
    (linked : Linked checked discipline stage scope spot.binders machine)
    (found : scope.getFunction ⟨name, args.length⟩ = .ok signature)
    (resolved : Expression.resolveArguments scope args signature.parameters = ⟨args', .ok ()⟩) :
    (Task.expressionPlan spot bound (.call note' name args' binding')).Meets
      (checked.contract discipline) ((checked.contract discipline).fault activity)
      (Gives checked discipline stage scope spot.binders signature.returns machine) machine := by
  obtain ⟨functions, only, known⟩ := linked.signatures
  obtain ⟨body, body_eq, callable, key_eq⟩ :=
    checked.exists_callable (known _ _ (only.getFunction.mp found))
  have arity : signature.parameters.length = args.length := congrArg FunctionKey.arity key_eq
  refine ⟨_,
    .arguments (visits.down rfl rfl) linked resolved arity.symm (callable.known discipline),
    fun values between _ ⟨kept, fits⟩ => ?_⟩
  have function_eq : between.scope.getFunction ⟨name, values.length⟩ = .ok body := by
    rw [← fits.length_eq, arity]
    exact kept.linked.bodies.getFunction.mpr body_eq
  refine .of_value (by rw [Eval.inspectScope, function_eq]; rfl) ?_
  refine apply_meets callable kept.linked.sound ?_ fits fun value after called fits => ?_
  · rintro rfl
    exact ⟨kept.linked.rooted, (kept.linked.settled rfl).2.2⟩
  · exact ⟨⟨kept.linked.called called, kept.grows.trans called.1⟩, fits⟩

theorem Ty.key_of_method {type : Ty} {key : FunctionKey} {method : NativeMethod}
    (found : type.method key = .ok method) : method.signature.key = key := by
  cases type
  case nominal definition =>
    cases here : definition.methods.find? (·.signature.key == key) with
    | none => simp [Ty.method, here] at found
    | some first =>
      simp only [Ty.method, here, Except.ok.injEq] at found
      subst found
      have matching := List.find?_some here
      exact beq_iff_eq.mp matching
  all_goals cases found

theorem memberCall_meets {receiver receiver' : Expression} {name : String}
    {args args' : List Expression} {owner : Ty} {method : NativeMethod}
    {binding binding' : Option Signature} (activity : Activity)
    (visits : checked.Visits spot (.expression (.memberCall note receiver name args binding)) scope
      returns)
    (linked : Linked checked discipline stage scope spot.binders machine)
    (receiverResolved : receiver.resolve scope = ⟨receiver', .ok owner⟩)
    (found : owner.method ⟨name, args.length⟩ = .ok method)
    (resolved : Expression.resolveArguments scope args method.signature.parameters =
      ⟨args', .ok ()⟩) :
    (Task.expressionPlan spot bound (.memberCall note' receiver' name args' binding')).Meets
      (checked.contract discipline) ((checked.contract discipline).fault activity)
      (Gives checked discipline stage scope spot.binders method.signature.returns machine)
      machine := by
  have arity : method.signature.parameters.length = args.length :=
    congrArg FunctionKey.arity (Ty.key_of_method found)
  refine ⟨_, .expression (visits.down rfl rfl) linked receiverResolved,
    fun self between _ ⟨kept, fits⟩ => ?_⟩
  refine ⟨_, .arguments (visits.down rfl rfl) kept.linked resolved arity.symm
    (discipline.known_method (discipline.known_of_fits fits) found),
    fun values later _ ⟨kept', fits'⟩ => ?_⟩
  rw [← arity, fits'.length_eq] at found
  refine keeps_meets (discipline.calling kept'.linked.sound
    (discipline.fits_of_grows kept'.grows fits) found fits') ?_
  intro value after same sound grows fits
  exact ⟨⟨kept'.linked.effects same sound grows, (kept.grows.trans kept'.grows).trans grows⟩, fits⟩

theorem arguments_meets {sources es : List Expression} {parameters : List Ty}
    (activity : Activity)
    (visits : checked.Visits spot (.arguments sources) scope returns)
    (linked : Linked checked discipline stage scope spot.binders machine)
    (resolved : Expression.resolveArguments scope sources parameters = ⟨es, .ok ()⟩)
    (arity : sources.length = parameters.length)
    (known : ∀ parameter ∈ parameters, discipline.known parameter) :
    ((Task.arguments spot es).plan bound).Meets (checked.contract discipline)
      ((checked.contract discipline).fault activity)
      (fun values after => Kept checked discipline stage scope spot.binders machine after ∧
        List.Forall₂ (discipline.fits after.effects.store) parameters values) machine := by
  match sources, parameters, arity with
  | [], [], _ =>
    obtain rfl := Expression.resolveArguments_nil_eq_ok.mp resolved
    exact ⟨.refl linked, .nil⟩
  | source :: sources, parameter :: parameters, arity =>
    obtain ⟨e, type, es, first, accepted, rest, rfl⟩ :=
      Expression.resolveArguments_cons_eq_ok.mp resolved
    obtain ⟨knownFirst, knownRest⟩ := List.forall_mem_cons.mp known
    refine ⟨_, .expression (visits.down rfl rfl) linked first,
      fun value between _ ⟨kept, fits⟩ => ?_⟩
    refine ⟨_, .arguments (visits.down rfl rfl) kept.linked rest (Nat.succ.inj arity) knownRest,
      fun values after _ ⟨kept', fits'⟩ => ?_⟩
    have fits := Discipline.fits_of_mustAccept accepted knownFirst fits
    exact ⟨kept'.onTop kept, .cons (discipline.fits_of_grows kept'.grows fits) fits'⟩

/-! ## All expressions -/

theorem expression_meets {source e : Expression}
    (visits : checked.Visits spot (.expression source) scope returns)
    (linked : Linked checked discipline stage scope spot.binders machine)
    (resolved : source.resolve scope = ⟨e, .ok type⟩) :
    (Task.expressionPlan spot bound e).Meets (checked.contract discipline)
      ((checked.contract discipline).fault ⟨.expression spot e, bound, machine⟩)
      (Gives checked discipline stage scope spot.binders type machine) machine := by
  cases source with
  | literal note value =>
    obtain ⟨-, typed, rfl⟩ := Expression.resolve_literal_eq_ok.mp resolved
    exact ⟨.refl linked, discipline.fits_literal typed⟩
  | group note inner =>
    obtain ⟨-, inner', innerResolved, rfl⟩ := Expression.resolve_group_eq_ok.mp resolved
    exact ⟨_, .expression (visits.down rfl rfl) linked innerResolved, fun _ _ _ given => given⟩
  | binary note operator left right =>
    obtain ⟨-, left', leftType, right', rightType, leftResolved, rightResolved, typed, rfl⟩ :=
      Expression.resolve_binary_eq_ok.mp resolved
    cases operator
    case and => exact logical_meets false _ rfl visits linked leftResolved rightResolved typed
    case or => exact logical_meets true _ rfl visits linked leftResolved rightResolved typed
    all_goals exact strict_meets nofun visits linked leftResolved rightResolved typed
  | access note name binding =>
    obtain ⟨-, -, found, bound_eq, rfl, rfl⟩ := Expression.resolve_access_eq_ok.mp resolved
    exact access_meets _ linked bound_eq
  | memberAccess note receiver name binding =>
    obtain ⟨-, -, receiver', owner, receiverResolved, field, rfl⟩ :=
      Expression.resolve_memberAccess_eq_ok.mp resolved
    exact memberAccess_meets _ visits linked receiverResolved field
  | call note name args binding =>
    obtain ⟨-, -, signature, args', found, argsResolved, rfl, rfl⟩ :=
      Expression.resolve_call_eq_ok.mp resolved
    exact call_meets _ visits linked found argsResolved
  | memberCall note receiver name args binding =>
    obtain ⟨-, -, receiver', owner, method, args', receiverResolved, found, argsResolved,
      rfl, rfl⟩ :=
      Expression.resolve_memberCall_eq_ok.mp resolved
    exact memberCall_meets _ visits linked receiverResolved found argsResolved

end

end Primer
